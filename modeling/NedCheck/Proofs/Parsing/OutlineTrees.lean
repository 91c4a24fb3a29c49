import Mathlib.Data.List.Chain
import NedCheck.Proofs.Parsing.OutlineLines
import NedCheck.Proofs.Parsing.Outlines

/-!
# What an outline stands for

The lines of an outline are those of a tree if they start with the root, are of known kinds and evenly indented, and no line is more than one level below the line before it. `IsOutline` says so, `Depicts` says which tree it is, and `parse_spec` that this is the tree that is read, with a warning for each word that is no attribute. In any other case the reading ends at the first line that `Offends`.

A line is added below one of the open nodes. They are the spine of the lines so far: the last line, the nearest line above it that is one level less deep, and so on up to the root, and all that stands between is deeper. What a line adds to the tree keeps this, and the tree of all lines follows by induction on the lines that are left.
-/

namespace NedCheck

namespace Outline

/-! ### The form of an outline -/

namespace Line

/-- How many levels the line is indented by. -/
def depth (line : Line) : Nat := line.indent / 2

/-- The attributes of the line's kind. -/
def schema (line : Line) : List AttributeSpec := ((Tag.ofName? line.kind).map Tag.attributes).getD []

/-- The value an attribute has after some words: that of the last word with its name, and else its default. -/
def lastValue (words : List (String × String)) (spec : AttributeSpec) : String :=
  ((words.filter fun word => word.1 = spec.name).getLast?.map Prod.snd).getD spec.initial

/-- The warnings about the line as that of a node: one for each word that is no attribute of its kind, in order. -/
def warnings (file : String) (id : Nat) (line : Line) : List Message :=
  (line.attributes.filter fun word => !(line.schema.any fun spec => spec.name = word.1)).map fun word =>
    .ofSeverity (some id) (Text.location file line.number) .warning ("unknown attribute '" ++ word.1 ++ "' ignored")

end Line

/-- The warnings about lines, whose nodes are numbered in their order. -/
def lineWarnings (file : String) (lines : List Line) : List Message :=
  lines.zipIdx.flatMap fun (line, id) => line.warnings file id

/-- The lines are those of a tree with a root of the given kind. -/
structure IsOutline (root : Tag) (lines : List Line) : Prop where
  first : ∃ line, lines.head? = some line ∧ Tag.ofName? line.kind = some root ∧ line.depth = 0
  known : ∀ line ∈ lines, (Tag.ofName? line.kind).isSome
  even : ∀ line ∈ lines, line.indent % 2 = 0
  steps : lines.IsChain fun before line => 1 ≤ line.depth ∧ line.depth ≤ before.depth + 1

/-- The line cannot follow the lines before it, and why. -/
inductive Offends (root : Tag) (before : List Line) (line : Line) : LineFault → Prop where
  | unknown : Tag.ofName? line.kind = none → Offends root before line (.unknownElement line.kind)
  | odd : (Tag.ofName? line.kind).isSome → line.indent % 2 ≠ 0 → Offends root before line .badIndentation
  | first : (Tag.ofName? line.kind).isSome → line.indent % 2 = 0 → before = [] →
    ¬ (Tag.ofName? line.kind = some root ∧ line.depth = 0) → Offends root before line (.rootExpected root)
  | jump {last : Line} : (Tag.ofName? line.kind).isSome → line.indent % 2 = 0 → before.getLast? = some last →
    ¬ (1 ≤ line.depth ∧ line.depth ≤ last.depth + 1) → Offends root before line .badIndentation

/-- The line of the given number is the nearest one above another that is one level less deep. -/
def NearestAbove (lines : List Line) (id parent : Nat) : Prop :=
  parent < id ∧ lines[parent]?.map (·.depth + 1) = lines[id]?.map (·.depth) ∧
    ∀ between, parent < between → between < id → lines[between]?.map (·.depth + 1) ≠ lines[id]?.map (·.depth)

/-- The node has what its line says. -/
structure Line.Describes (line : Line) (file : String) (node : Node) : Prop where
  tag : node.tag? = Tag.ofName? line.kind
  attributes : node.attributes = line.schema.map (lastValue line.attributes)
  location : node.location = Text.location file line.number
  region : node.region = {}

/-- The tree has one node for each line, in order, below the node of the nearest line above that is one level less deep. -/
structure Depicts (file : String) (lines : List Line) (tree : ParseTree) : Prop where
  size : tree.size = lines.length
  describes {id : Nat} {line : Line} : lines[id]? = some line → line.Describes file (tree.node id)
  root : (tree.node ParseTree.root).parent = none
  parent {id : Nat} : 0 < id → id < lines.length →
    ∃ parent, (tree.node id).parent = some parent ∧ NearestAbove lines id parent

/-! ### Attributes -/

/-- The values with one set anew, if there is an attribute of the name. -/
def assign (specs : List AttributeSpec) (values : List String) (word : String × String) : List String :=
  match specs.findIdx? fun spec => spec.name = word.1 with
  | some index => values.set index word.2
  | none => values

theorem assign_map {specs : List AttributeSpec} (hnames : (specs.map (·.name)).Nodup) (value : AttributeSpec → String)
    (word : String × String) : assign specs (specs.map value) word =
      specs.map fun spec => if spec.name = word.1 then word.2 else value spec := by
  unfold assign
  induction specs with
  | nil => rfl
  | cons first rest ih =>
    rw [List.map_cons, List.nodup_cons] at hnames
    have hrest := ih hnames.2
    rw [List.findIdx?_cons, List.map_cons, List.map_cons]
    by_cases hfirst : first.name = word.1
    · have hothers : ∀ spec ∈ rest, (if spec.name = word.1 then word.2 else value spec) = value spec :=
        fun spec hspec => if_neg fun heq => hnames.1 (List.mem_map.2 ⟨spec, hspec, heq.trans hfirst.symm⟩)
      rw [List.map_congr_left hothers]
      simp [hfirst]
    · rw [← hrest]
      cases hindex : rest.findIdx? fun spec => spec.name = word.1 <;> simp [hfirst]

theorem foldl_assign (tag : Tag) (words : List (String × String)) :
    words.foldl (assign tag.attributes) (tag.attributes.map AttributeSpec.initial) =
      tag.attributes.map (Line.lastValue words) := by
  induction words using List.reverseRecOn with
  | nil => rfl
  | append_singleton words word ih =>
    rw [List.foldl_append, List.foldl_cons, List.foldl_nil, ih, assign_map tag.attributes_names_nodup]
    refine List.map_congr_left fun spec _ => ?_
    unfold Line.lastValue
    rw [List.filter_append]
    by_cases hname : spec.name = word.1
    · simp [hname]
    · simp [hname, Ne.symm hname]

theorem tag?_new (tag : Tag) (parent : Option Nat) : (Node.new tag.code parent).tag? = some tag :=
  Tag.ofCode?_eq_some_iff.2 rfl

theorem attributes_new (tag : Tag) (parent : Option Nat) :
    (Node.new tag.code parent).attributes = tag.attributes.map AttributeSpec.initial := by
  rw [Node.new, Tag.ofCode?_eq_some_iff.2 rfl, Option.map_some, Option.getD_some]

section SetAttributes

variable {tree : ParseTree} {id : Nat} {tag : Tag}

theorem modify_modify (hid : id < tree.size) (first second : Node → Node) :
    (tree.modify id first).modify id second = tree.modify id fun node => second (first node) := by
  have hsize : id < (tree.modify id first).size := Nat.lt_of_lt_of_eq hid (tree.size_modify id first).symm
  refine ParseTree.ext_node (by simp only [ParseTree.size_modify]) fun other => ?_
  rw [ParseTree.node_modify_of_lt hsize, ParseTree.node_modify_of_lt hid, ParseTree.node_modify_of_lt hid]
  split_ifs <;> rfl

theorem setValue?_eq (htag : (tree.node id).tag? = some tag)
    (hlength : (tree.node id).attributes.length = tag.attributes.length) (name value : String) :
    tree.setValue? id name value = (tag.attributeIndex? name).map fun index =>
      tree.modify id fun node => { node with attributes := node.attributes.set index value } := by
  rw [ParseTree.setValue?, htag, Option.bind_some]
  cases hindex : tag.attributeIndex? name with
  | none => rfl
  | some index =>
    have hlt : index < tag.attributes.length := (List.findIdx?_eq_some_iff_getElem.1 hindex).1
    rw [Option.bind_some, ParseTree.setValueAt?, if_pos (hlength ▸ hlt)]
    rfl

theorem setAttributes_eq (hid : id < tree.size) (htag : (tree.node id).tag? = some tag)
    (hlength : (tree.node id).attributes.length = tag.attributes.length) (location : String)
    (words : List (String × String)) (warnings : List Message) :
    setAttributes location id words (tree, warnings) =
      (tree.modify id fun node => { node with attributes := words.foldl (assign tag.attributes) node.attributes },
        warnings ++ (words.filter fun word => !(tag.attributes.any fun spec => spec.name = word.1)).map fun word =>
          .ofSeverity (some id) location .warning ("unknown attribute '" ++ word.1 ++ "' ignored")) := by
  induction words generalizing tree warnings with
  | nil =>
    have hunchanged : tree.modify id (fun node => { node with attributes := node.attributes }) = tree := by
      refine ParseTree.ext_node (tree.size_modify id _) fun other => ?_
      rw [ParseTree.node_modify_of_lt hid]
      split_ifs <;> rfl
    rw [setAttributes, List.filter_nil, List.map_nil, List.append_nil]
    exact congrArg (·, warnings) hunchanged.symm
  | cons word rest ih =>
    have hany : tag.attributes.any (fun spec => spec.name = word.1) = (tag.attributeIndex? word.1).isSome :=
      List.findIdx?_isSome.symm
    rw [setAttributes, setValue?_eq htag hlength, List.filter_cons, hany]
    cases hindex : tag.attributeIndex? word.1 with
    | none =>
      have hassign (values : List String) : assign tag.attributes values word = values := by
        have hfind : tag.attributes.findIdx? (fun spec => spec.name = word.1) = none := hindex
        rw [assign, hfind]
      simp only [Option.map_none, ih hid htag hlength, List.foldl_cons, hassign]
      simp
    | some index =>
      have hassign (values : List String) : assign tag.attributes values word = values.set index word.2 := by
        have hfind : tag.attributes.findIdx? (fun spec => spec.name = word.1) = some index := hindex
        rw [assign, hfind]
      have hchanged := ParseTree.node_modify_of_lt hid
        (fun node => { node with attributes := node.attributes.set index word.2 }) id
      rw [if_pos rfl] at hchanged
      have hnext : id < (tree.modify id fun node => { node with attributes := node.attributes.set index word.2 }).size := by
        rwa [ParseTree.size_modify]
      have hset := ih hnext (by rw [hchanged]; exact htag) (by rw [hchanged, List.length_set]; exact hlength) warnings
      simp only [Option.map_some, hset, modify_modify hid, List.foldl_cons, hassign]
      simp

end SetAttributes

/-- The node with what the line says. -/
def Line.fillNode (line : Line) (file : String) (node : Node) : Node :=
  { node with
    location := Text.location file line.number
    attributes := line.schema.map (Line.lastValue line.attributes) }

theorem fill_eq {tree : ParseTree} {id : Nat} {tag : Tag} {line : Line} {parent : Option Nat} (hid : id < tree.size)
    (hkind : Tag.ofName? line.kind = some tag) (hnew : tree.node id = .new tag.code parent) (file : String)
    (openNodes : List Nat) (warnings : List Message) :
    Growth.fill file line tree id openNodes warnings =
      ⟨tree.modify id (line.fillNode file), id :: openNodes, warnings ++ line.warnings file id⟩ := by
  have hschema : line.schema = tag.attributes := by rw [Line.schema, hkind, Option.map_some, Option.getD_some]
  have htag : (tree.node id).tag? = some tag := by rw [hnew, tag?_new]
  have hvalues : (tree.node id).attributes = tag.attributes.map AttributeSpec.initial := by rw [hnew, attributes_new]
  have hplaced : (tree.setLocation id (Text.location file line.number)).node id =
      { tree.node id with location := Text.location file line.number } := by
    rw [ParseTree.setLocation, ParseTree.node_modify_of_lt hid, if_pos rfl]
  have hlocated : id < (tree.setLocation id (Text.location file line.number)).size := by
    rwa [ParseTree.setLocation, ParseTree.size_modify]
  have hset := setAttributes_eq hlocated (by rw [hplaced]; exact htag) (by rw [hplaced]; simp [hvalues])
    (Text.location file line.number) line.attributes warnings
  rw [Growth.fill, hset, ParseTree.setLocation, modify_modify hid, Line.warnings, hschema]
  have hnodes : (tree.modify id fun node => { node with
        location := Text.location file line.number
        attributes := line.attributes.foldl (assign tag.attributes) node.attributes }) =
      tree.modify id (line.fillNode file) := by
    refine ParseTree.ext_node (by simp only [ParseTree.size_modify]) fun other => ?_
    rw [ParseTree.node_modify_of_lt hid, ParseTree.node_modify_of_lt hid]
    split_ifs with hother
    · rw [hother, hvalues, foldl_assign, Line.fillNode, hschema]
    · rfl
  rw [← hnodes]

theorem describes_fillNode {line : Line} {tag : Tag} (hkind : Tag.ofName? line.kind = some tag) (file : String)
    (parent : Option Nat) : line.Describes file (line.fillNode file (.new tag.code parent)) :=
  ⟨(tag?_new tag parent).trans hkind.symm, rfl, rfl, rfl⟩

/-! ### Open nodes -/

/-- The open nodes lead from the last line up to the root. Each is as deep as there are others above it, and all lines after it are deeper. -/
structure Spine (lines : List Line) (openNodes : List Nat) : Prop where
  last : lines ≠ [] → openNodes.head? = some (lines.length - 1)
  depth {id : Nat} {outer : List Nat} : id :: outer <:+ openNodes → lines[id]?.map Line.depth = some outer.length
  deeper {id : Nat} {outer : List Nat} : id :: outer <:+ openNodes →
    ∀ later line, id < later → lines[later]? = some line → outer.length < line.depth

namespace Spine

variable {lines : List Line} {openNodes : List Nat} {line last : Line}

theorem nil : Spine [] [] := ⟨fun h => absurd rfl h, by simp, by simp⟩

theorem length_eq (h : Spine lines openNodes) (hlast : lines.getLast? = some last) :
    openNodes.length = last.depth + 1 := by
  have hhead := h.last (by rintro rfl; cases hlast)
  obtain ⟨outer, hopen⟩ : ∃ outer, openNodes = (lines.length - 1) :: outer :=
    List.head?_eq_some_iff.1 hhead
  have hwhole : (lines.length - 1) :: outer <:+ openNodes := hopen ▸ List.suffix_refl openNodes
  have hdepth := h.depth hwhole
  rw [List.getLast?_eq_getElem?] at hlast
  rw [hlast, Option.map_some, Option.some.injEq] at hdepth
  rw [hopen, List.length_cons, hdepth]

theorem nearestAbove (h : Spine lines openNodes) {parent : Nat} {outer : List Nat}
    (habove : parent :: outer <:+ openNodes) (hdepth : outer.length + 1 = line.depth) :
    NearestAbove (lines ++ [line]) lines.length parent := by
  have hparent := h.depth habove
  have hlt : parent < lines.length := by
    obtain ⟨found, hfound, -⟩ := Option.map_eq_some_iff.1 hparent
    exact (List.getElem?_eq_some_iff.1 hfound).1
  have hline : (lines ++ [line])[lines.length]? = some line := List.getElem?_concat_length
  refine ⟨hlt, ?_, fun between hafter hbefore heq => ?_⟩
  · obtain ⟨found, hfound, hfoundDepth⟩ := Option.map_eq_some_iff.1 hparent
    rw [List.getElem?_append_left hlt, hfound, hline, Option.map_some, Option.map_some, hfoundDepth, hdepth]
  · rw [List.getElem?_append_left hbefore, hline, Option.map_some] at heq
    obtain ⟨found, hfound, hfoundDepth⟩ := Option.map_eq_some_iff.1 heq
    have hdeeper := h.deeper habove between found hafter hfound
    omega

/-- A line that is at most one level below the last has an open node one level above it. -/
theorem exists_parent (h : Spine lines openNodes) (hlast : lines.getLast? = some last)
    (hstep : 1 ≤ line.depth ∧ line.depth ≤ last.depth + 1) :
    ∃ parent outer, openNodes.drop (openNodes.length - line.depth) = parent :: outer ∧
      parent :: outer <:+ openNodes ∧ outer.length + 1 = line.depth := by
  have hlength := h.length_eq hlast
  obtain ⟨parent, outer, habove⟩ : ∃ parent outer,
      openNodes.drop (openNodes.length - line.depth) = parent :: outer := by
    refine List.exists_cons_of_ne_nil fun hnil => ?_
    rw [List.drop_eq_nil_iff] at hnil
    omega
  refine ⟨parent, outer, habove, habove ▸ List.drop_suffix _ _, ?_⟩
  have hdrop := congrArg List.length habove
  rw [List.length_drop, List.length_cons] at hdrop
  omega

theorem append (h : Spine lines openNodes) {above : List Nat} (habove : above <:+ openNodes)
    (hdepth : above.length = line.depth) : Spine (lines ++ [line]) (lines.length :: above) where
  last _ := by simp
  depth {id outer} hsuffix := by
    rcases List.suffix_cons_iff.1 hsuffix with heq | hold
    · obtain ⟨rfl, rfl⟩ := List.cons.inj heq
      rw [List.getElem?_concat_length, Option.map_some, hdepth]
    · have hfound := h.depth (hold.trans habove)
      obtain ⟨found, hline, -⟩ := Option.map_eq_some_iff.1 hfound
      rwa [List.getElem?_append_left (List.getElem?_eq_some_iff.1 hline).1]
  deeper {id outer} hsuffix later found hlater hfound := by
    have hlt : later < lines.length + 1 := by simpa using (List.getElem?_eq_some_iff.1 hfound).1
    rcases List.suffix_cons_iff.1 hsuffix with heq | hold
    · obtain ⟨rfl, rfl⟩ := List.cons.inj heq
      omega
    · rcases Nat.lt_succ_iff_lt_or_eq.1 hlt with hbefore | rfl
      · rw [List.getElem?_append_left hbefore] at hfound
        exact h.deeper (hold.trans habove) later found hlater hfound
      · rw [List.getElem?_concat_length, Option.some.injEq] at hfound
        obtain rfl := hfound
        have hlength := hold.length_le
        rw [List.length_cons] at hlength
        omega

end Spine

/-! ### Lines one after another -/

theorem NearestAbove.append {lines : List Line} {id parent : Nat} (h : NearestAbove lines id parent)
    (hid : id < lines.length) (later : List Line) : NearestAbove (lines ++ later) id parent := by
  obtain ⟨hlt, hdepth, hbetween⟩ := h
  have hget {other : Nat} (hother : other < lines.length) : (lines ++ later)[other]? = lines[other]? :=
    List.getElem?_append_left hother
  refine ⟨hlt, ?_, fun between hafter hbefore => ?_⟩
  · rw [hget hid, hget (Nat.lt_trans hlt hid), hdepth]
  · rw [hget hid, hget (Nat.lt_trans hbefore hid)]
    exact hbetween between hafter hbefore

theorem lineWarnings_append (file : String) (lines : List Line) (line : Line) :
    lineWarnings file (lines ++ [line]) = lineWarnings file lines ++ line.warnings file lines.length := by
  simp [lineWarnings, List.zipIdx_append]

/-- What has been read so far stands for the lines so far. -/
structure Growth.Follows (growth : Growth) (file : String) (lines : List Line) : Prop where
  depicts : Depicts file lines growth.tree
  spine : Spine lines growth.openNodes
  warnings : growth.warnings = lineWarnings file lines

variable {root : Tag} {file : String} {lines : List Line} {line last : Line} {growth : Growth}

/-- One more line, whose node is a new one below the node of another, and which changes the others in their children at most. -/
theorem Depicts.append {tree next : ParseTree} (h : Depicts file lines tree) (hsize : next.size = tree.size + 1)
    (hold : ∀ id, id < tree.size → ∃ children, next.node id = { tree.node id with children })
    (hnew : line.Describes file (next.node tree.size))
    (hparent : ∃ parent, (next.node tree.size).parent = some parent ∧ NearestAbove (lines ++ [line]) lines.length parent) :
    Depicts file (lines ++ [line]) next := by
  rw [h.size] at hsize hold hnew hparent
  have hlength : (lines ++ [line]).length = lines.length + 1 := by rw [List.length_append, List.length_singleton]
  have hcases {id : Nat} (hid : id < lines.length + 1) : id < lines.length ∨ id = lines.length :=
    Nat.lt_succ_iff_lt_or_eq.1 hid
  constructor
  · rw [hsize, hlength]
  · intro id found hfound
    have hid := (List.getElem?_eq_some_iff.1 hfound).1
    rcases hcases (hlength ▸ hid) with hbefore | rfl
    · rw [List.getElem?_append_left hbefore] at hfound
      obtain ⟨children, hnode⟩ := hold id hbefore
      obtain ⟨htag, hattributes, hlocation, hregion⟩ := h.describes hfound
      rw [hnode]
      exact ⟨htag, hattributes, hlocation, hregion⟩
    · rw [List.getElem?_concat_length, Option.some.injEq] at hfound
      exact hfound ▸ hnew
  · obtain ⟨parent, -, hlt, -⟩ := hparent
    obtain ⟨children, hnode⟩ := hold ParseTree.root (Nat.zero_lt_of_lt hlt)
    rw [hnode]
    exact h.root
  · intro id hpos hid
    rcases hcases (hlength ▸ hid) with hbefore | rfl
    · obtain ⟨children, hnode⟩ := hold id hbefore
      obtain ⟨parent, hlink, hnearest⟩ := h.parent hpos hbefore
      rw [hnode]
      exact ⟨parent, hlink, hnearest.append hbefore [line]⟩
    · exact hparent

theorem place_eq_ok {tag : Tag} (hkind : Tag.ofName? line.kind = some tag) (heven : line.indent % 2 = 0) :
    line.place = .ok (tag, line.depth) := by
  rw [Line.place, hkind]
  exact if_pos heven

/-- A line is of a known kind and evenly indented, or it offends wherever it stands. -/
theorem place_spec (root : Tag) (before : List Line) (line : Line) :
    (∃ tag, Tag.ofName? line.kind = some tag ∧ line.indent % 2 = 0) ∨
      ∃ fault, Offends root before line fault ∧ line.place = .error fault := by
  cases hkind : Tag.ofName? line.kind with
  | none => exact .inr ⟨_, .unknown hkind, by rw [Line.place, hkind]⟩
  | some tag =>
    by_cases heven : line.indent % 2 = 0
    · exact .inl ⟨tag, rfl, heven⟩
    · refine .inr ⟨_, .odd (by rw [hkind, Option.isSome_some]) heven, ?_⟩
      rw [Line.place, hkind]
      exact if_neg heven

theorem follows_start {tag : Tag} (hkind : Tag.ofName? line.kind = some tag) (hdepth : line.depth = 0) (file : String) :
    (Growth.fill file line (.new tag.code) ParseTree.root [] []).Follows file [line] := by
  have hroot : ParseTree.root < (ParseTree.new tag.code).size := Nat.one_pos
  have hnode : (ParseTree.new tag.code).node ParseTree.root = Node.new tag.code none := rfl
  have hfilled := ParseTree.node_modify_of_lt hroot (line.fillNode file) ParseTree.root
  rw [if_pos rfl, hnode] at hfilled
  rw [fill_eq hroot hkind hnode]
  refine ⟨⟨?_, ?_, ?_, ?_⟩, Spine.nil.append (List.suffix_refl []) hdepth.symm, ?_⟩
  · rw [ParseTree.size_modify]
    rfl
  · intro id found hfound
    cases id with
    | zero =>
      obtain rfl : line = found := Option.some.inj hfound
      show line.Describes file (ParseTree.node _ ParseTree.root)
      rw [hfilled]
      exact describes_fillNode hkind file none
    | succ id => simp at hfound
  · rw [hfilled]
    rfl
  · intro id hpos hid
    rw [List.length_singleton] at hid
    omega
  · exact (lineWarnings_append file [] line).symm

theorem Depicts.appendChild {tree : ParseTree} (h : Depicts file lines tree) {tag : Tag}
    (hkind : Tag.ofName? line.kind = some tag) {parent : Nat}
    (hnearest : NearestAbove (lines ++ [line]) lines.length parent) :
    (tree.appendChild parent tag.code).node tree.size = .new tag.code (some parent) ∧
      Depicts file (lines ++ [line]) ((tree.appendChild parent tag.code).modify tree.size (line.fillNode file)) := by
  have hparent : parent < tree.size := h.size ▸ hnearest.1
  have hnode := ParseTree.node_appendChild (Nat.le_of_lt hparent) tag.code
  have hnew : (tree.appendChild parent tag.code).node tree.size = Node.new tag.code (some parent) := by
    rw [hnode, if_pos rfl]
    exact if_neg (Nat.ne_of_gt hparent)
  have hid : tree.size < (tree.appendChild parent tag.code).size := by
    rw [ParseTree.size_appendChild]
    exact Nat.lt_succ_self _
  have hfilled := ParseTree.node_modify_of_lt hid (line.fillNode file)
  refine ⟨hnew, h.append ?_ (fun id hbefore => ?_) ?_ ⟨parent, ?_, hnearest⟩⟩
  · rw [ParseTree.size_modify, ParseTree.size_appendChild]
  · rw [hfilled, if_neg (Nat.ne_of_lt hbefore), hnode, if_neg (Nat.ne_of_lt hbefore)]
    dsimp only
    split_ifs
    · exact ⟨_, rfl⟩
    · exact ⟨_, rfl⟩
  · rw [hfilled, if_pos rfl, hnew]
    exact describes_fillNode hkind file (some parent)
  · rw [hfilled, if_pos rfl, hnew]
    rfl

theorem Growth.Follows.add (h : growth.Follows file lines) {tag : Tag} (hkind : Tag.ofName? line.kind = some tag)
    (heven : line.indent % 2 = 0) (hlast : lines.getLast? = some last)
    (hstep : 1 ≤ line.depth ∧ line.depth ≤ last.depth + 1) :
    ∃ next, growth.add file line = .ok next ∧ next.Follows file (lines ++ [line]) := by
  obtain ⟨parent, outer, habove, hsuffix, hdepth⟩ := h.spine.exists_parent hlast hstep
  obtain ⟨hnew, hdepicts⟩ := h.depicts.appendChild hkind (h.spine.nearestAbove hsuffix hdepth)
  have hadd : growth.add file line = .ok (.fill file line (growth.tree.appendChild parent tag.code) growth.tree.size
      (parent :: outer) growth.warnings) := by
    have hlength := h.spine.length_eq hlast
    have hopen : line.depth ≤ growth.openNodes.length := by omega
    simp only [Growth.add, place_eq_ok hkind heven, bind, Except.bind, habove, if_pos hopen]
    rfl
  have hid : growth.tree.size < (growth.tree.appendChild parent tag.code).size := by
    rw [ParseTree.size_appendChild]
    exact Nat.lt_succ_self _
  refine ⟨_, hadd, ?_⟩
  rw [fill_eq hid hkind hnew]
  constructor
  · exact hdepicts
  · rw [h.depicts.size]
    exact h.spine.append hsuffix (by rw [List.length_cons, hdepth])
  · rw [lineWarnings_append, h.warnings, h.depicts.size]

theorem Growth.Follows.add_of_jump (h : growth.Follows file lines) {tag : Tag}
    (hkind : Tag.ofName? line.kind = some tag) (heven : line.indent % 2 = 0) (hlast : lines.getLast? = some last)
    (hjump : ¬ (1 ≤ line.depth ∧ line.depth ≤ last.depth + 1)) : growth.add file line = .error .badIndentation := by
  have hlength := h.spine.length_eq hlast
  simp only [Growth.add, place_eq_ok hkind heven, bind, Except.bind]
  split
  · rename_i parent outer habove
    have hdrop := congrArg List.length habove
    rw [List.length_drop, List.length_cons] at hdrop
    rw [if_neg (by omega)]
    rfl
  · rfl

/-! ### Outlines and offences -/

theorem IsOutline.ne_nil (h : IsOutline root lines) : lines ≠ [] := by
  obtain ⟨first, hfirst, -⟩ := h.first
  rintro rfl
  cases hfirst

theorem isOutline_singleton {tag : Tag} (hkind : Tag.ofName? line.kind = some tag) (heven : line.indent % 2 = 0)
    (hroot : Tag.ofName? line.kind = some root ∧ line.depth = 0) : IsOutline root [line] where
  first := ⟨line, rfl, hroot⟩
  known := by simp [hkind]
  even := by simpa using heven
  steps := .singleton line

theorem IsOutline.append (h : IsOutline root lines) (hkind : (Tag.ofName? line.kind).isSome)
    (heven : line.indent % 2 = 0) (hlast : lines.getLast? = some last)
    (hstep : 1 ≤ line.depth ∧ line.depth ≤ last.depth + 1) : IsOutline root (lines ++ [line]) where
  first := by
    rw [List.head?_append_of_ne_nil _ h.ne_nil]
    exact h.first
  known := List.forall_mem_append.2 ⟨h.known, by simpa using hkind⟩
  even := List.forall_mem_append.2 ⟨h.even, by simpa using heven⟩
  steps := by
    rw [List.isChain_append]
    refine ⟨h.steps, .singleton line, fun before hbefore next hnext => ?_⟩
    obtain rfl := Option.some.inj (hlast.symm.trans hbefore)
    obtain rfl := Option.some.inj hnext
    exact hstep

/-- No outline goes on with a line that offends. -/
theorem Offends.not_isOutline {before : List Line} {fault : LineFault} (h : Offends root before line fault)
    (after : List Line) : ¬ IsOutline root (before ++ line :: after) := by
  intro houtline
  have hmem : line ∈ before ++ line :: after := by simp
  cases h with
  | unknown hkind =>
    have hknown := houtline.known line hmem
    rw [hkind] at hknown
    cases hknown
  | odd _ hodd => exact hodd (houtline.even line hmem)
  | first _ _ hbefore hroot =>
    subst hbefore
    obtain ⟨found, hfound, hfirst⟩ := houtline.first
    obtain rfl := Option.some.inj hfound
    exact hroot hfirst
  | jump _ _ hlast hstep =>
    have hsteps := (List.isChain_append.1 houtline.steps).2.2
    exact hstep (hsteps _ hlast line rfl)

theorem start_spec (root : Tag) (file : String) (line : Line) :
    (IsOutline root [line] ∧ ∃ growth, start root file line = .ok growth ∧ growth.Follows file [line]) ∨
      ∃ fault, Offends root [] line fault ∧ start root file line = .error fault := by
  rcases place_spec root [] line with ⟨tag, hkind, heven⟩ | ⟨fault, hoffends, hplace⟩
  · by_cases hroot : line.depth = 0 ∧ tag = root
    · obtain ⟨hdepth, rfl⟩ := hroot
      refine .inl ⟨isOutline_singleton hkind heven ⟨hkind, hdepth⟩, _, ?_, follows_start hkind hdepth file⟩
      simp only [start, place_eq_ok hkind heven, bind, Except.bind, hdepth, and_self, if_pos]
      rfl
    · have hoffends : Offends root [] line (.rootExpected root) := by
        refine .first (by rw [hkind, Option.isSome_some]) heven rfl fun hfirst => hroot ⟨hfirst.2, ?_⟩
        exact Option.some.inj (hkind.symm.trans hfirst.1)
      refine .inr ⟨_, hoffends, ?_⟩
      simp only [start, place_eq_ok hkind heven, bind, Except.bind, if_neg hroot]
      rfl
  · refine .inr ⟨fault, hoffends, ?_⟩
    rw [start, hplace]
    rfl

theorem add_spec (h : growth.Follows file lines) (houtline : IsOutline root lines) (line : Line) :
    (IsOutline root (lines ++ [line]) ∧ ∃ next, growth.add file line = .ok next ∧ next.Follows file (lines ++ [line])) ∨
      ∃ fault, Offends root lines line fault ∧ growth.add file line = .error fault := by
  rcases place_spec root lines line with ⟨tag, hkind, heven⟩ | ⟨fault, hoffends, hplace⟩
  · have hknown : (Tag.ofName? line.kind).isSome := by rw [hkind, Option.isSome_some]
    obtain ⟨last, hlast⟩ : ∃ last, lines.getLast? = some last :=
      ⟨_, List.getLast?_eq_getLast_of_ne_nil houtline.ne_nil⟩
    by_cases hstep : 1 ≤ line.depth ∧ line.depth ≤ last.depth + 1
    · exact .inl ⟨houtline.append hknown heven hlast hstep, h.add hkind heven hlast hstep⟩
    · exact .inr ⟨_, .jump hknown heven hlast hstep, h.add_of_jump hkind heven hlast hstep⟩
  · refine .inr ⟨fault, hoffends, ?_⟩
    rw [Growth.add, hplace]
    rfl

/-- The error that ends the reading at a line. -/
def LineFault.error (fault : LineFault) (file : String) (line : Line) : Message :=
  .ofSeverity none (Text.location file line.number) .error fault.message

/-- The lines that are left are added up to the first that offends. -/
theorem addAll_spec (h : growth.Follows file lines) (houtline : IsOutline root lines) (rest : List Line) :
    (IsOutline root (lines ++ rest) ∧ ∃ tree, growth.addAll file rest = (some tree, lineWarnings file (lines ++ rest)) ∧
      Depicts file (lines ++ rest) tree) ∨
    ∃ before line after fault, lines ++ rest = before ++ line :: after ∧ IsOutline root before ∧
      Offends root before line fault ∧
      growth.addAll file rest = (none, lineWarnings file before ++ [fault.error file line]) := by
  induction rest generalizing growth lines with
  | nil =>
    rw [List.append_nil]
    refine .inl ⟨houtline, growth.tree, ?_, h.depicts⟩
    rw [Growth.addAll, h.warnings]
  | cons line rest ih =>
    rcases add_spec h houtline line with ⟨hnext, next, hadd, hfollows⟩ | ⟨fault, hoffends, hadd⟩
    · have hrest := ih hfollows hnext
      have hstep : growth.addAll file (line :: rest) = next.addAll file rest := by rw [Growth.addAll, hadd]
      rwa [List.append_assoc, List.singleton_append, ← hstep] at hrest
    · refine .inr ⟨lines, line, rest, fault, rfl, houtline, hoffends, ?_⟩
      rw [Growth.addAll, hadd, h.warnings]
      rfl

theorem parse_significantLines (root : Tag) (file text : String) :
    (IsOutline root (significantLines text) ∧ ∃ tree,
      parse root file text = (some tree, lineWarnings file (significantLines text)) ∧
        Depicts file (significantLines text) tree) ∨
    (significantLines text = [] ∧
      parse root file text = (none, [.ofSeverity none file .error "syntax error: empty input"])) ∨
    ∃ before line after fault, significantLines text = before ++ line :: after ∧ (before = [] ∨ IsOutline root before) ∧
      Offends root before line fault ∧
      parse root file text = (none, lineWarnings file before ++ [fault.error file line]) := by
  cases hlines : significantLines text with
  | nil => exact .inr (.inl ⟨rfl, by rw [parse, hlines]⟩)
  | cons first rest =>
    rcases start_spec root file first with ⟨houtline, growth, hstart, hfollows⟩ | ⟨fault, hoffends, hstart⟩
    · have hparse : parse root file text = growth.addAll file rest := by rw [parse, hlines]; simp only [hstart]
      rw [hparse]
      rcases addAll_spec hfollows houtline rest with hall | ⟨before, line, after, fault, hsplit, hbefore, hoffends, hadded⟩
      · exact .inl hall
      · exact .inr (.inr ⟨before, line, after, fault, hsplit, .inr hbefore, hoffends, hadded⟩)
    · refine .inr (.inr ⟨[], first, rest, fault, rfl, .inl rfl, hoffends, ?_⟩)
      rw [parse, hlines]
      simp only [hstart]
      rfl

theorem isOutline_of_parse {tree : ParseTree} {text : String} (h : (parse root file text).1 = some tree) :
    IsOutline root (significantLines text) ∧ Depicts file (significantLines text) tree := by
  rcases parse_significantLines root file text with
    ⟨houtline, other, hparse, hdepicts⟩ | ⟨-, hparse⟩ | ⟨_, _, _, _, -, -, -, hparse⟩ <;> rw [hparse] at h
  · exact ⟨houtline, Option.some.inj h ▸ hdepicts⟩
  · cases h
  · cases h

theorem tag?_root_of_parse {tree : ParseTree} {text : String} (h : (parse root file text).1 = some tree) :
    (tree.node ParseTree.root).tag? = some root := by
  obtain ⟨houtline, hdepicts⟩ := isOutline_of_parse h
  obtain ⟨first, hfirst, hkind, -⟩ := houtline.first
  rw [List.head?_eq_getElem?] at hfirst
  exact (hdepicts.describes hfirst).tag.trans hkind

/-- An outline is read if and only if its significant lines are those of a tree with the wanted root. These are the lines of the text that are neither blank nor comments, in order. What is read is the tree of the lines, whose links between parents and children agree, with a warning on its node for each word that is no attribute. Of other texts nothing is read: there are the warnings on the lines before the first one that offends, and one error at that line, or at the file if no line is significant. -/
theorem parse_spec (root : Tag) (file text : String) :
    ((∀ line, line ∈ significantLines text ↔ 1 ≤ line.number ∧
      ∃ content, (Text.lines text.toList)[line.number - 1]? = some content ∧ line.Spells content) ∧
      (significantLines text).Pairwise (·.number < ·.number)) ∧
    ((parse root file text).1.isSome ↔ IsOutline root (significantLines text)) ∧
    (∀ tree, (parse root file text).1 = some tree → tree.Linked ∧ Depicts file (significantLines text) tree ∧
      (parse root file text).2 = lineWarnings file (significantLines text)) ∧
    ((parse root file text).1 = none →
      (significantLines text = [] ∧
        (parse root file text).2 = [.ofSeverity none file .error "syntax error: empty input"]) ∨
      ∃ before line after fault, significantLines text = before ++ line :: after ∧
        (before = [] ∨ IsOutline root before) ∧ Offends root before line fault ∧
        (parse root file text).2 = lineWarnings file before ++ [fault.error file line]) := by
  have hlinked (tree : ParseTree) (htree : (parse root file text).1 = some tree) : tree.Linked := (built_parse htree).linked
  refine ⟨⟨fun _ => mem_significantLines_iff, sorted_significantLines text⟩, ?_⟩
  rcases parse_significantLines root file text with
    ⟨houtline, tree, hparse, hdepicts⟩ | ⟨hempty, hparse⟩ | ⟨before, line, after, fault, hsplit, hbefore, hoffends, hparse⟩
  · rw [hparse] at hlinked ⊢
    refine ⟨⟨fun _ => houtline, fun _ => rfl⟩, fun other hother => ?_, fun hnone => by cases hnone⟩
    obtain rfl := Option.some.inj hother
    exact ⟨hlinked tree rfl, hdepicts, rfl⟩
  · rw [hparse]
    refine ⟨⟨fun hsome => (by cases hsome), fun houtline => absurd hempty houtline.ne_nil⟩,
      fun other hother => (by cases hother), fun _ => .inl ⟨hempty, rfl⟩⟩
  · rw [hparse]
    refine ⟨⟨fun hsome => (by cases hsome), fun houtline => ?_⟩, fun other hother => (by cases hother),
      fun _ => .inr ⟨before, line, after, fault, hsplit, hbefore, hoffends, rfl⟩⟩
    rw [hsplit] at houtline
    exact absurd houtline (hoffends.not_isOutline after)

/-- The comment has a number, but no node. -/
example : (parse .nedFile "a:b" "ned-file\n  // c\n\n  package name=p size=3 name=q").2 =
    [.ofSeverity (some 1) "a:b:4" .warning "unknown attribute 'size' ignored"] := by
  decide +kernel

end Outline

end NedCheck
