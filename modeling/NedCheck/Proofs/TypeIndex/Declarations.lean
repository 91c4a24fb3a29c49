import Mathlib.Data.List.Nodup
import NedCheck.Proofs.ParseTree.Layout
import NedCheck.Proofs.TypeIndex.Registrations

/-!
# What a file declares

The types of a file are those among its children, and with each type those in its first section for types. `mem_fileDeclarations_of_mem_innerTypes` is all that is to be known of how they are gathered: inner types of a type that the file declares are declared as well, under the name of their owner, a dot and their own. In a file that fits the schema there is no second section for types to miss.

An index `Registers` a file of a project if it knows all its types as the file declares them. That is so once the file is added if no two of its types share a qualified name, and it stays so until another declaration of one of these names comes along.
-/

namespace NedCheck

namespace Element

/-- The types in the first types section of a declaration. -/
def innerTypes (e : Element) : List Element :=
  ((e.firstChild? .types).map fun part => part.children.filter (·.tag.isTypeDeclaration)).getD []

theorem declarationsAmong_eq (file owner : String) (children : List Element) :
    declarationsAmong file owner children = (children.filter (·.tag.isTypeDeclaration)).flatMap fun d =>
      declarations file (some owner) (owner ++ "." ++ d.name) d := by
  induction children with
  | nil => rw [declarationsAmong, List.filter_nil, List.flatMap_nil]
  | cons d rest ih =>
    rw [declarationsAmong, ih]
    by_cases htype : d.tag.isTypeDeclaration = true <;> simp [htype]

theorem declarationsInSection_eq (file owner : String) (children : List Element) :
    declarationsInSection file owner children =
      ((children.find? fun part => part.tag = .types).map fun part =>
        declarationsAmong file owner part.children).getD [] := by
  induction children with
  | nil => rw [declarationsInSection, List.find?_nil, Option.map_none, Option.getD_none]
  | cons part rest ih =>
    have hunder : declarationsUnder file owner part = declarationsAmong file owner part.children := by
      cases part
      rw [declarationsUnder]
    rw [declarationsInSection, ih, hunder]
    by_cases htypes : part.tag = .types <;> simp [htypes]

theorem declarations_eq (file : String) (enclosing : Option String) (qualifiedName : String) (e : Element) :
    declarations file enclosing qualifiedName e =
      (e.innerTypes.flatMap fun d => declarations file (some qualifiedName) (qualifiedName ++ "." ++ d.name) d) ++
        [⟨e.name, qualifiedName, file, enclosing, e⟩] := by
  obtain ⟨id, tag, attributes, children, location, region⟩ := e
  rw [declarations, declarationsInSection_eq, innerTypes, firstChild?]
  cases children.find? fun part => part.tag = .types with
  | none => rfl
  | some part =>
    rw [Option.map_some, Option.map_some, Option.getD_some, Option.getD_some, declarationsAmong_eq]

theorem mem_declarations_self (file : String) (enclosing : Option String) (qualifiedName : String) (e : Element) :
    ⟨e.name, qualifiedName, file, enclosing, e⟩ ∈ declarations file enclosing qualifiedName e := by
  rw [declarations_eq]
  exact List.mem_append_right _ (List.mem_singleton_self _)

theorem firstChild?_eq_some {e part : Element} {tag : Tag} (h : e.firstChild? tag = some part) :
    part ∈ e.children ∧ part.tag = tag := by
  unfold firstChild? at h
  exact ⟨List.mem_of_find?_eq_some h, by simpa using List.find?_some h⟩

theorem exists_of_mem_innerTypes {e d : Element} (h : d ∈ e.innerTypes) :
    ∃ part ∈ e.children, part.tag = .types ∧ d ∈ part.children ∧ d.tag.isTypeDeclaration = true := by
  unfold innerTypes at h
  cases hpart : e.firstChild? .types with
  | none => simp [hpart] at h
  | some part =>
    rw [hpart, Option.map_some, Option.getD_some] at h
    obtain ⟨hd, htype⟩ := List.mem_filter.1 h
    obtain ⟨hmem, htag⟩ := firstChild?_eq_some hpart
    exact ⟨part, hmem, htag, hd, htype⟩

/-- Induction from inner types to their owners. -/
theorem innerTypes_induction {P : Element → Prop} (step : ∀ e : Element, (∀ d ∈ e.innerTypes, P d) → P e)
    (e : Element) : P e := by
  -- inner types are two levels down, so the children have to come along
  have hboth : P e ∧ ∀ child ∈ e.children, P child := by
    induction e using Element.induction with
    | step e ih =>
      refine ⟨step e fun d hd => ?_, fun child hchild => (ih child hchild).1⟩
      obtain ⟨part, hpart, -, hmem, -⟩ := exists_of_mem_innerTypes hd
      exact (ih part hpart).2 d hmem
  exact hboth.1

theorem named_of_mem_declarations {file : String} {enclosing : Option String} {qualifiedName : String} {e : Element}
    {entry : TypeEntry} (h : entry ∈ declarations file enclosing qualifiedName e) :
    entry.file = file ∧ entry.name = entry.element.name := by
  induction e using innerTypes_induction generalizing enclosing qualifiedName with
  | step e ih =>
    rw [declarations_eq] at h
    rcases List.mem_append.1 h with hinner | hself
    · obtain ⟨d, hd, hinner⟩ := List.mem_flatMap.1 hinner
      exact ih d hd hinner
    · obtain rfl := List.mem_singleton.1 hself
      exact ⟨rfl, rfl⟩

theorem mem_declarations_of_mem_innerTypes {file : String} {enclosing : Option String} {qualifiedName : String}
    {e d : Element} {entry : TypeEntry} (h : entry ∈ declarations file enclosing qualifiedName e)
    (hd : d ∈ entry.element.innerTypes) :
    ⟨d.name, entry.qualifiedName ++ "." ++ d.name, file, some entry.qualifiedName, d⟩ ∈
      declarations file enclosing qualifiedName e := by
  induction e using innerTypes_induction generalizing enclosing qualifiedName with
  | step e ih =>
    rw [declarations_eq] at h ⊢
    apply List.mem_append_left
    rcases List.mem_append.1 h with hinner | hself
    · obtain ⟨other, hother, hinner⟩ := List.mem_flatMap.1 hinner
      exact List.mem_flatMap.2 ⟨other, hother, ih other hother hinner⟩
    · obtain rfl := List.mem_singleton.1 hself
      exact List.mem_flatMap.2 ⟨d, hd, mem_declarations_self _ _ _ d⟩

/-! ### Files -/

theorem mem_fileDeclarations_of_mem_children {file e : Element} (h : e ∈ file.children)
    (htype : e.tag.isTypeDeclaration = true) :
    ⟨e.name, qualify file.packageName e.name, file.value "filename", none, e⟩ ∈ file.fileDeclarations :=
  List.mem_flatMap.2 ⟨e, List.mem_filter.2 ⟨h, htype⟩, mem_declarations_self _ _ _ e⟩

theorem named_of_mem_fileDeclarations {file : Element} {entry : TypeEntry} (h : entry ∈ file.fileDeclarations) :
    entry.file = file.value "filename" ∧ entry.name = entry.element.name := by
  obtain ⟨e, -, h⟩ := List.mem_flatMap.1 h
  exact named_of_mem_declarations h

theorem mem_fileDeclarations_of_mem_innerTypes {file d : Element} {entry : TypeEntry}
    (h : entry ∈ file.fileDeclarations) (hd : d ∈ entry.element.innerTypes) :
    ⟨d.name, entry.qualifiedName ++ "." ++ d.name, entry.file, some entry.qualifiedName, d⟩ ∈ file.fileDeclarations := by
  rw [(named_of_mem_fileDeclarations h).1]
  obtain ⟨e, he, h⟩ := List.mem_flatMap.1 h
  exact List.mem_flatMap.2 ⟨e, he, mem_declarations_of_mem_innerTypes h hd⟩

theorem Sound.childrenWithTag_types {e : Element} (h : e.Sound) :
    e.childrenWithTag .types = (e.firstChild? .types).toList := by
  have hcount := List.nodup_iff_count_le_one.1 (sound_iff.1 h).1.single .types
  rw [List.count_filter rfl, List.count, List.countP_map, List.countP_eq_length_filter] at hcount
  have hsections : (e.childrenWithTag .types).length ≤ 1 := hcount
  have hfirst : e.firstChild? .types = (e.childrenWithTag .types).head? := List.head?_filter.symm
  rw [hfirst]
  match e.childrenWithTag .types, hsections with
  | [], _ => rfl
  | [part], _ => rfl

theorem Sound.firstChild?_types {e part : Element} (h : e.Sound) (hpart : part ∈ e.children)
    (htag : part.tag = .types) : e.firstChild? .types = some part := by
  have hmem : part ∈ e.childrenWithTag .types := List.mem_filter.2 ⟨hpart, decide_eq_true htag⟩
  rw [h.childrenWithTag_types] at hmem
  exact Option.mem_toList.1 hmem

theorem Sound.innerTypes_eq {e : Element} (h : e.Sound) :
    e.innerTypes = (e.childrenWithTag .types).flatMap fun part => part.children.filter (·.tag.isTypeDeclaration) := by
  rw [h.childrenWithTag_types, innerTypes]
  cases e.firstChild? .types <;> simp

theorem Sound.mem_innerTypes_iff {e d : Element} (h : e.Sound) :
    d ∈ e.innerTypes ↔ ∃ part ∈ e.children, part.tag = .types ∧ d ∈ part.children ∧ d.tag.isTypeDeclaration = true := by
  refine ⟨exists_of_mem_innerTypes, ?_⟩
  rintro ⟨part, hpart, htag, hd, htype⟩
  rw [innerTypes, h.firstChild?_types hpart htag]
  exact List.mem_filter.2 ⟨hd, htype⟩

/-- What adding a tree to an index declares, file by file. -/
def registrations (root : Element) : List TypeEntry :=
  match root.tag with
  | .files => (root.childrenWithTag .nedFile).flatMap fileDeclarations
  | .nedFile => root.fileDeclarations
  | _ => []

end Element

namespace TypeIndex

/-- The index knows every type of the file, by the name and with the declaration it has there. -/
def Registers (index : TypeIndex) (project : String) (file : Element) : Prop :=
  ∀ entry ∈ file.fileDeclarations, index.types.get? (project, entry.qualifiedName) = some entry

variable {index : TypeIndex} {project : String} {file : Element}

theorem types_register_get? {entry : TypeEntry} {key : TypeKey} :
    (index.register project entry).types.get? key =
      if (project, entry.qualifiedName) = key then some entry else index.types.get? key :=
  Table.get?_insert index.types _ _ entry

theorem types_foldl_register_get?_of_ne {entries : List TypeEntry} {key : TypeKey}
    (h : ∀ entry ∈ entries, (project, entry.qualifiedName) ≠ key) :
    (entries.foldl (fun index entry => index.register project entry) index).types.get? key = index.types.get? key := by
  induction entries generalizing index with
  | nil => rfl
  | cons entry rest ih =>
    rw [List.foldl_cons, ih fun other hother => h other (by simp [hother]), types_register_get?,
      if_neg (h entry (by simp))]

theorem types_foldl_register_get? {entries : List TypeEntry} (hunique : (entries.map (·.qualifiedName)).Nodup)
    {entry : TypeEntry} (h : entry ∈ entries) :
    (entries.foldl (fun index entry => index.register project entry) index).types.get? (project, entry.qualifiedName) =
      some entry := by
  induction entries generalizing index with
  | nil => exact absurd h List.not_mem_nil
  | cons first rest ih =>
    rw [List.map_cons, List.nodup_cons] at hunique
    rw [List.foldl_cons]
    rcases List.mem_cons.1 h with rfl | h
    · rw [types_foldl_register_get?_of_ne, types_register_get?, if_pos rfl]
      intro other hother heq
      exact hunique.1 (List.mem_map.2 ⟨other, hother, congrArg Prod.snd heq⟩)
    · exact ih hunique.2 h

theorem types_foldl_register (index : TypeIndex) (project : String) (entries : List TypeEntry) :
    (entries.foldl (fun index entry => index.register project entry) index).types =
      entries.foldl (fun types entry => types.insert (project, entry.qualifiedName) entry) index.types := by
  induction entries generalizing index with
  | nil => rfl
  | cons entry rest ih => exact ih (index.register project entry)

theorem types_addFile (index : TypeIndex) (project : String) (root : Element) :
    (index.addFile project root).types =
      root.registrations.foldl (fun types entry => types.insert (project, entry.qualifiedName) entry) index.types := by
  have hfile (index : TypeIndex) (file : Element) := types_foldl_register index project file.fileDeclarations
  unfold addFile Element.registrations
  cases root.tag with
  | files =>
    dsimp only
    induction root.childrenWithTag .nedFile generalizing index with
    | nil => rfl
    | cons file rest ih =>
      rw [List.foldl_cons, List.flatMap_cons, List.foldl_append, ih, ← hfile]
      rfl
  | nedFile => exact hfile index root
  | _ => rfl

/-- Of the declarations with one name the last one counts, and with none the index stays as it was. -/
theorem types_addFile_get? (index : TypeIndex) (project : String) (root : Element) (name : String) :
    (index.addFile project root).types.get? (project, name) =
      ((root.registrations.filter (·.qualifiedName = name)).getLast?).or (index.types.get? (project, name)) := by
  rw [types_addFile]
  generalize index.types = types
  induction root.registrations generalizing types with
  | nil => rfl
  | cons entry rest ih =>
    rw [List.foldl_cons, ih, Table.get?_insert]
    by_cases hname : entry.qualifiedName = name
    · simp [hname, List.getLast?_cons]
    · simp [hname]

theorem Registers.innerTypes_unique (h : index.Registers project file) {entry : TypeEntry}
    (hentry : entry ∈ file.fileDeclarations) {d other : Element} (hd : d ∈ entry.element.innerTypes)
    (hother : other ∈ entry.element.innerTypes) (hname : d.name = other.name) : d = other := by
  have hfirst := h _ (Element.mem_fileDeclarations_of_mem_innerTypes hentry hd)
  have hsecond := h _ (Element.mem_fileDeclarations_of_mem_innerTypes hentry hother)
  rw [hname] at hfirst
  exact congrArg TypeEntry.element (Option.some.inj (hfirst.symm.trans hsecond))

theorem registers_addNedFile (hunique : (file.fileDeclarations.map (·.qualifiedName)).Nodup) :
    (index.addNedFile project file).Registers project file :=
  fun _ hentry => types_foldl_register_get? hunique hentry

theorem Registers.congr {other : TypeIndex} (h : index.Registers project file) (hsame : SameRegistrations other index) :
    other.Registers project file := by
  unfold Registers
  rw [hsame.types]
  exact h

end TypeIndex

end NedCheck
