import NedCheck.Proofs.ParseTree.Structure
import NedCheck.Proofs.ParseTree.Walk

/-!
# Which trees are accepted

The checks find nothing wrong with a tree if and only if every node in reach of the root conforms to the schema. `Conforms` says what that means of a node without going through the checks: which attributes need a value, which take only certain values and which ones, and what may stand below. Whether an attribute takes only certain values is told by its name and the kind of its element, so `Tag.legalValues?` is a rule on names, and the schema agrees with it.

A check only ever adds to the messages there are. In a tree that was built every node has as many values as its kind has attributes, so a check never complains of their number.
-/

namespace NedCheck

/-! ### Legal values -/

/-- The values of a kind, unless any text will do. -/
def ValueKind.values? : ValueKind → Option (List String)
  | .text => none
  | .flag => some ["true", "false"]
  | .gateType => some ["", "input", "output", "inout"]
  | .paramType => some ["", "double", "int", "string", "bool", "xml"]
  | .arrow => some ["l2r", "r2l", "bidir"]
  | .subgate => some ["", "i", "o"]

theorem ValueKind.accepts_iff {kind : ValueKind} {value : String} :
    kind.accepts value = true ↔ ∀ values, kind.values? = some values → value ∈ values := by
  cases kind with
  | text => simp [accepts, values?]
  | flag => simp [accepts, values?, Flag.parse?, Flag.text, eq_comm (b := value), or_comm]
  | gateType => simp [accepts, values?, GateType.parse?, GateType.text, eq_comm (b := value)]
  | paramType => simp [accepts, values?, ParamType.parse?, ParamType.text, eq_comm (b := value)]
  | arrow => simp [accepts, values?, Arrow.parse?, Arrow.text, eq_comm (b := value)]
  | subgate => simp [accepts, values?, Subgate.parse?, Subgate.text, eq_comm (b := value)]

/-- The values that the named attribute takes on elements of a kind, unless any text will do. -/
def Tag.legalValues? (tag : Tag) (name : String) : Option (List String) :=
  if "is-".toList.isPrefixOf name.toList || "-plusplus".toList.isSuffixOf name.toList ||
      name = "allow-unconnected" then
    some ["true", "false"]
  else if "-subg".toList.isSuffixOf name.toList then some ["", "i", "o"]
  else if tag = .gate ∧ name = "type" then some ["", "input", "output", "inout"]
  else if tag = .param ∧ name = "type" then some ["", "double", "int", "string", "bool", "xml"]
  else if tag = .connection ∧ name = "arrow-direction" then some ["l2r", "r2l", "bidir"]
  else none

theorem Tag.values?_valueKind (tag : Tag) (name : String) : (tag.valueKind name).values? = tag.legalValues? name := by
  unfold valueKind legalValues?
  split_ifs <;> grind [ValueKind.values?]

theorem Tag.values?_eq_legalValues? {tag : Tag} {spec : AttributeSpec} (h : spec ∈ tag.attributes) :
    spec.kind.values? = tag.legalValues? spec.name := by
  rw [kind_eq_valueKind h, values?_valueKind]

namespace ParseTree

variable {tree : ParseTree}

theorem valueProblem?_eq_none_iff {tag : Tag} {spec : AttributeSpec} {value : String} (h : spec ∈ tag.attributes) :
    valueProblem? tag spec value = none ↔
      (spec.default = none → value ≠ "") ∧
        ∀ values, tag.legalValues? spec.name = some values → value ∈ values := by
  rw [← Tag.values?_eq_legalValues? h, ← ValueKind.accepts_iff, valueProblem?]
  by_cases hdefault : spec.default = none <;> by_cases hempty : value = "" <;>
    cases spec.kind.accepts value <;> simp [hdefault, hempty]

/-! ### Nodes that conform -/

/-- The node is of the kind and conforms to the schema: required attributes have a value, attributes that take only certain values have one of those, and the children of known kinds are allowed, with no section among them twice. -/
structure Conforms (tree : ParseTree) (id : Nat) (tag : Tag) : Prop where
  known : (tree.node id).tag? = some tag
  required {index : Nat} {spec : AttributeSpec} : tag.attributes[index]? = some spec →
    spec.default = none → (tree.node id).value index ≠ ""
  legal {index : Nat} {spec : AttributeSpec} {values : List String} : tag.attributes[index]? = some spec →
    tag.legalValues? spec.name = some values → (tree.node id).value index ∈ values
  allowed {child : Nat} {kind : Tag} : child ∈ (tree.node id).children →
    (tree.node child).tag? = some kind → tag.allows kind = true
  single (kind : Tag) : kind.isSingleton = true →
    ((tree.node id).children.countP fun child => (tree.node child).tag? = some kind) ≤ 1

theorem nodup_singletons_iff (children : List Nat) :
    ((tree.kinds children).filter Tag.isSingleton).Nodup ↔
      ∀ kind : Tag, kind.isSingleton = true →
        (children.countP fun child => (tree.node child).tag? = some kind) ≤ 1 := by
  have hcount (kind : Tag) : (tree.kinds children).count kind =
      children.countP fun child => (tree.node child).tag? = some kind := by
    rw [kinds, List.count_filterMap]
    apply List.countP_congr
    simp
  rw [List.nodup_iff_count_le_one]
  refine forall_congr' fun kind => ?_
  by_cases hsingle : kind.isSingleton = true
  · rw [List.count_filter hsingle, hcount]
    simp [hsingle]
  · have hnot : kind ∉ (tree.kinds children).filter Tag.isSingleton :=
      fun hmem => hsingle (List.mem_filter.1 hmem).2
    simp [List.count_eq_zero_of_not_mem hnot, hsingle]

theorem legal_values_iff {node : Node} {tag : Tag} (hlength : node.attributes.length = tag.attributes.length) :
    (∀ pair ∈ tag.attributes.zip node.attributes, valueProblem? tag pair.1 pair.2 = none) ↔
      ∀ index spec, tag.attributes[index]? = some spec → valueProblem? tag spec (node.value index) = none := by
  constructor
  · intro h index spec hspec
    have hindex : index < node.attributes.length := by
      rw [hlength]
      exact (List.getElem?_eq_some_iff.1 hspec).1
    have hvalue : node.attributes[index]? = some (node.value index) := by
      rw [Node.value, List.getD_eq_getElem?_getD, List.getElem?_eq_getElem hindex]
      rfl
    exact h (spec, node.value index)
      (List.mem_iff_getElem?.2 ⟨index, List.getElem?_zip_eq_some.2 ⟨hspec, hvalue⟩⟩)
  · intro h pair hpair
    obtain ⟨index, hindex⟩ := List.mem_iff_getElem?.1 hpair
    obtain ⟨hspec, hvalue⟩ := List.getElem?_zip_eq_some.1 hindex
    have heq : node.value index = pair.2 := by
      rw [Node.value, List.getD_eq_getElem?_getD, hvalue, Option.getD_some]
    exact heq ▸ h index pair.1 hspec

theorem Complete.problemsAt_eq_nil_iff (h : tree.Complete) (id : Nat) :
    tree.problemsAt id = [] ↔ ∃ tag, tree.Conforms id tag := by
  rw [ParseTree.problemsAt_eq_nil_iff]
  refine exists_congr fun tag => ?_
  constructor
  · intro hnode
    obtain ⟨hknown, hfits⟩ := hnode
    have hlegal := (legal_values_iff hfits.complete).1 hfits.legal
    have hspec : ∀ {index spec}, tag.attributes[index]? = some spec → spec ∈ tag.attributes :=
      fun hindex => List.mem_iff_getElem?.2 ⟨_, hindex⟩
    refine ⟨hknown, ?_, ?_, ?_, (nodup_singletons_iff _).1 hfits.single⟩
    · intro index spec hindex
      exact ((valueProblem?_eq_none_iff (hspec hindex)).1 (hlegal index spec hindex)).1
    · intro index spec values hindex
      exact ((valueProblem?_eq_none_iff (hspec hindex)).1 (hlegal index spec hindex)).2 values
    · intro child kind hchild hkind
      exact hfits.allowed kind (List.mem_filterMap.2 ⟨child, hchild, hkind⟩)
  · intro hnode
    have hlength := h id tag hnode.known
    refine ⟨hnode.known, hlength, (legal_values_iff hlength).2 ?_, ?_, (nodup_singletons_iff _).2 hnode.single⟩
    · intro index spec hindex
      rw [valueProblem?_eq_none_iff (List.mem_iff_getElem?.2 ⟨index, hindex⟩)]
      exact ⟨hnode.required hindex, fun values => hnode.legal hindex⟩
    · intro kind hkind
      obtain ⟨child, hchild, hkind⟩ := List.mem_filterMap.1 hkind
      exact hnode.allowed hchild hkind

/-! ### What a check adds -/

theorem check_eq (tree : ParseTree) (messages : List Message) :
    tree.check messages = (tree.problems.length, messages ++ tree.problemMessages) := by
  have hadded : ((tree.walk root).map fun id => (tree.problemsAt id).map tree.problemMessage).flatten =
      tree.problemMessages := by
    rw [problemMessages, problems, List.map_flatMap, List.flatMap_def]
  rw [check, List.foldl_append_eq_append, hadded, List.length_append, Nat.add_sub_cancel_left, problemMessages,
    List.length_map]

theorem Linked.mem_walk_of_mem_problems (h : tree.Linked) {found : Nat × StructureProblem}
    (hfound : found ∈ tree.problems) : found.1 ∈ tree.walk root := by
  obtain ⟨id, hid, hfound⟩ := List.mem_flatMap.1 hfound
  rw [problemsAt_eq] at hfound
  rcases List.mem_append.1 hfound with hown | hchild
  · obtain ⟨problem, -, rfl⟩ := List.mem_map.1 hown
    exact hid
  · have hparent := h.mem_children_iff.1 (tree.mem_children_of_mem_childProblems hchild)
    rw [h.mem_walk_iff h.grounded_root] at hid ⊢
    exact .head hparent hid

theorem ne_attributeCount_of_mem_placeProblems {tag : Tag} {seen : List Tag} {children : List Nat}
    {found : Nat × StructureProblem} (h : found ∈ tree.placeProblems tag seen children) (kind : Tag) (count : Nat) :
    found.2 ≠ .attributeCount kind count := by
  induction children generalizing seen with
  | nil => simp [placeProblems] at h
  | cons child rest ih =>
    rw [placeProblems] at h
    grind

theorem Complete.ne_attributeCount (h : tree.Complete) {found : Nat × StructureProblem}
    (hfound : found ∈ tree.problems) (kind : Tag) (count : Nat) : found.2 ≠ .attributeCount kind count := by
  obtain ⟨id, -, hfound⟩ := List.mem_flatMap.1 hfound
  unfold problemsAt at hfound
  dsimp only at hfound
  cases hknown : (tree.node id).tag? with
  | none =>
    simp only [hknown] at hfound
    rw [List.mem_singleton.1 hfound]
    simp
  | some tag =>
    simp only [hknown] at hfound
    rw [if_neg (not_not_intro (h id tag hknown))] at hfound
    rcases List.mem_append.1 hfound with hvalue | hplace
    · obtain ⟨pair, -, hvalue⟩ := List.mem_filterMap.1 hvalue
      obtain ⟨problem, hproblem, rfl⟩ := Option.map_eq_some_iff.1 hvalue
      unfold valueProblem? at hproblem
      grind
    · exact ne_attributeCount_of_mem_placeProblems hplace kind count

/-- A check of a tree that was built finds no problem if and only if every node in reach of the root conforms to the schema. It keeps the messages there are and adds one for each problem it counts, an error on a node in reach of the root; no problem is a wrong number of attributes. -/
theorem check_built (hbuilt : tree.Built) (messages : List Message) :
    ((tree.check messages).1 = 0 ↔ ∀ id ∈ tree.walk root, ∃ tag, tree.Conforms id tag) ∧
    (∃ added, (tree.check messages).2 = messages ++ added ∧ (tree.check messages).1 = added.length ∧
      added = tree.problems.map tree.problemMessage ∧
      ∀ message ∈ added, message.severityCode = Severity.error.code ∧
        ∃ id ∈ tree.walk root, message.context = some id) ∧
    (∀ found ∈ tree.problems, ∀ kind count, found.2 ≠ .attributeCount kind count) := by
  have hlinked := hbuilt.linked
  have hcomplete := hbuilt.complete
  rw [check_eq]
  refine ⟨?_, ⟨tree.problemMessages, rfl, ?_, rfl, ?_⟩, fun found hfound => hcomplete.ne_attributeCount hfound⟩
  · rw [List.length_eq_zero_iff, problems_eq_nil_iff]
    exact forall₂_congr fun id _ => hcomplete.problemsAt_eq_nil_iff id
  · rw [problemMessages, List.length_map]
  · intro message hmessage
    obtain ⟨found, hfound, rfl⟩ := List.mem_map.1 hmessage
    exact ⟨rfl, found.1, hlinked.mem_walk_of_mem_problems hfound, rfl⟩

/-- A file with a gate where none belongs, and a node of unknown kind in it. -/
def strayGate : ParseTree := ((ParseTree.new 2).appendChild 0 20).appendChild 1 99

/-- The gate has no name and is out of place, and the node below it is of no kind. -/
theorem check_built_strayGate :
    strayGate.Built ∧ (strayGate.check [⟨none, "a.ned", 3, "read"⟩]).1 = 3 ∧
      ¬ (∀ id ∈ strayGate.walk root, ∃ tag, strayGate.Conforms id tag) ∧
      ∃ added, (strayGate.check [⟨none, "a.ned", 3, "read"⟩]).2 = ⟨none, "a.ned", 3, "read"⟩ :: added := by
  have hbuilt : strayGate.Built := .appendChild 99 (.appendChild 20 (.new 2) (by decide)) (by decide)
  have hcount : (strayGate.check [⟨none, "a.ned", 3, "read"⟩]).1 = 3 := by decide +kernel
  obtain ⟨haccepted, ⟨added, hkept, -⟩, -⟩ := check_built hbuilt [⟨none, "a.ned", 3, "read"⟩]
  refine ⟨hbuilt, hcount, ?_, added, hkept⟩
  intro hconforms
  rw [haccepted.2 hconforms] at hcount
  exact absurd hcount (by decide)

end ParseTree

end NedCheck
