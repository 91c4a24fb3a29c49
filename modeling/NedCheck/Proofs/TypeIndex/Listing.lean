import Mathlib.Data.List.Nodup
import NedCheck.Proofs.TypeIndex.Projects

/-!
# What an index lists

Each file that is added registers what it declares, and an index holds one declaration for each project and name: the last one, at the place of the first. So all that can be listed of an index is read off the row of registrations. A name is in the row if and only if a file of the project declares a type of that name, and a project's list has those of its names, by their first registrations, whose last registration is at the top level of a file.
-/

namespace NedCheck

/-! ### Rows of entries -/

section

variable {κ ν : Type} [DecidableEq κ]

theorem pairwise_idxOf_firsts [BEq κ] [LawfulBEq κ] (entries : List (κ × ν)) :
    ((firsts entries).map Prod.fst).Pairwise fun earlier later =>
      (entries.map Prod.fst).idxOf earlier < (entries.map Prod.fst).idxOf later := by
  induction entries with
  | nil => exact List.Pairwise.nil
  | cons entry rest ih =>
    have hrest : ∀ key ∈ ((firsts rest).filter fun other => other.1 ≠ entry.1).map Prod.fst,
        ((entry :: rest).map Prod.fst).idxOf key = (rest.map Prod.fst).idxOf key + 1 := by
      intro key hkey
      obtain ⟨other, hother, rfl⟩ := List.mem_map.1 hkey
      rw [List.map_cons, List.idxOf_cons_ne _ (Ne.symm (of_decide_eq_true (List.mem_filter.1 hother).2))]
    rw [firsts, List.map_cons (l := (firsts rest).filter _), List.pairwise_cons]
    refine ⟨?_, (ih.sublist (List.filter_sublist.map _)).imp_of_mem ?_⟩
    · intro key hkey
      rw [hrest key hkey, List.map_cons, List.idxOf_cons_self]
      exact Nat.succ_pos _
    · intro earlier later hearlier hlater hlt
      rw [hrest earlier hearlier, hrest later hlater]
      exact Nat.succ_lt_succ hlt

namespace Table

/-- The table after a row of entries has been written. -/
def write (table : Table κ ν) (entries : List (κ × ν)) : Table κ ν :=
  entries.foldl (fun table entry => table.insert entry.1 entry.2) table

theorem get?_write (table : Table κ ν) (entries : List (κ × ν)) (key : κ) :
    (table.write entries).get? key =
      (((entries.filter fun entry => entry.1 = key).getLast?).map Prod.snd).or (table.get? key) := by
  induction entries generalizing table with
  | nil => rfl
  | cons entry rest ih =>
    have hstep : table.write (entry :: rest) = (table.insert entry.1 entry.2).write rest := rfl
    rw [hstep, ih, get?_insert]
    by_cases hkey : entry.1 = key
    · simp [hkey, List.getLast?_cons]
    · simp [hkey]

/-- A key keeps the place where it came up first. -/
theorem keys_write_empty (entries : List (κ × ν)) :
    (write (∅ : Table κ ν) entries).keys = (firsts entries).map Prod.fst := by
  have hsame : ∀ left right : Table κ ν, left.keys = right.keys →
      (left.write entries).keys = (right.insertAll entries).keys := by
    induction entries with
    | nil => exact fun _ _ h => h
    | cons entry rest ih =>
      intro left right h
      refine ih _ _ ?_
      have hstep : (right.insertIfNew entry.1 entry.2).keys = (left.insert entry.1 entry.2).keys := by
        rw [keys_insert, h]
        unfold insertIfNew
        by_cases hmem : entry.1 ∈ right.keys
        · rw [if_pos hmem, if_pos (contains_iff.2 hmem)]
        · rw [if_neg hmem, if_neg fun hcontains => hmem (contains_iff.1 hcontains), keys_insert, if_neg hmem]
      exact hstep.symm
  rw [hsame ∅ ∅ rfl, keys, entries_insertAll_empty]

end Table

end

/-! ### What a file declares -/

/-- The file declares the type, in its package at the top level, or in the first section for types of a type that it declares, under the name of that one, a dot and its own. -/
inductive Element.Declares (file : Element) : TypeEntry → Prop where
  | top {e : Element} : e ∈ file.children → e.tag.isTypeDeclaration = true →
    Declares file ⟨e.name, qualify file.packageName e.name, file.value "filename", none, e⟩
  | inner {outer : TypeEntry} {d : Element} : Declares file outer → d ∈ outer.element.innerTypes →
    Declares file
      ⟨d.name, outer.qualifiedName ++ "." ++ d.name, file.value "filename", some outer.qualifiedName, d⟩

theorem Element.mem_fileDeclarations_iff {file : Element} {entry : TypeEntry} :
    entry ∈ file.fileDeclarations ↔ file.Declares entry := by
  have hbelow : ∀ (e : Element) (enclosing : Option String) (qualifiedName : String),
      file.Declares ⟨e.name, qualifiedName, file.value "filename", enclosing, e⟩ →
      ∀ entry ∈ declarations (file.value "filename") enclosing qualifiedName e, file.Declares entry := by
    intro e
    induction e using innerTypes_induction with
    | step e ih =>
      intro enclosing qualifiedName hself entry hentry
      rw [declarations_eq] at hentry
      rcases List.mem_append.1 hentry with hinner | hlast
      · obtain ⟨d, hd, hinner⟩ := List.mem_flatMap.1 hinner
        exact ih d hd _ _ (.inner hself hd) entry hinner
      · exact List.mem_singleton.1 hlast ▸ hself
  constructor
  · intro h
    obtain ⟨e, he, h⟩ := List.mem_flatMap.1 h
    obtain ⟨hchild, htype⟩ := List.mem_filter.1 he
    exact hbelow e _ _ (.top hchild htype) entry h
  · intro h
    induction h with
    | top hchild htype => exact mem_fileDeclarations_of_mem_children hchild htype
    | inner _ hd ih =>
      have hinner := mem_fileDeclarations_of_mem_innerTypes ih hd
      rwa [(named_of_mem_fileDeclarations ih).1] at hinner

/-! ### Registrations -/

namespace TypeIndex

/-- Everything that the calls register, in order, each with its key. -/
def registered (calls : List (String × Element)) : List (TypeKey × TypeEntry) :=
  calls.flatMap fun call => call.2.registrations.map fun entry => ((call.1, entry.qualifiedName), entry)

theorem types_addFiles (calls : List (String × Element)) :
    (addFiles calls).types = Table.write ∅ (registered calls) := by
  have hcalls : ∀ index : TypeIndex, (calls.foldl (fun index call => index.addFile call.1 call.2) index).types =
      index.types.write (registered calls) := by
    induction calls with
    | nil => exact fun _ => rfl
    | cons call rest ih =>
      intro index
      have hrow : registered (call :: rest) =
          (call.2.registrations.map fun entry => ((call.1, entry.qualifiedName), entry)) ++ registered rest :=
        List.flatMap_cons
      rw [List.foldl_cons, ih, types_addFile, hrow, Table.write, Table.write, List.foldl_append, List.foldl_map]
  exact hcalls .empty

/-- The last declaration that was registered for the project under the name. -/
def lastRegistered? (calls : List (String × Element)) (project name : String) : Option TypeEntry :=
  (((registered calls).filter fun entry => entry.1 = (project, name)).getLast?).map Prod.snd

theorem types_addFiles_get? (calls : List (String × Element)) (project name : String) :
    (addFiles calls).types.get? (project, name) = lastRegistered? calls project name := by
  rw [types_addFiles, Table.get?_write]
  exact Option.or_none

theorem keys_addFiles (calls : List (String × Element)) :
    (addFiles calls).types.keys = (firsts (registered calls)).map Prod.fst := by
  rw [types_addFiles, Table.keys_write_empty]

theorem mem_registered_iff {calls : List (String × Element)} {key : TypeKey} {entry : TypeEntry} :
    (key, entry) ∈ registered calls ↔ key.2 = entry.qualifiedName ∧ ∃ call ∈ calls, call.1 = key.1 ∧
      ∃ file ∈ call.2.nedFiles, file.Declares entry := by
  simp only [registered, List.mem_map, List.mem_flatMap, Element.registrations_eq, Element.mem_fileDeclarations_iff,
    Prod.mk.injEq]
  constructor
  · rintro ⟨call, hcall, _, ⟨file, hfile, hentry⟩, rfl, rfl⟩
    exact ⟨rfl, call, hcall, rfl, file, hfile, hentry⟩
  · rintro ⟨hname, call, hcall, hproject, file, hfile, hentry⟩
    exact ⟨call, hcall, entry, ⟨file, hfile, hentry⟩, Prod.ext hproject hname.symm, rfl⟩

theorem mem_keys_registered_iff {calls : List (String × Element)} {project name : String} :
    (project, name) ∈ (registered calls).map Prod.fst ↔ ∃ call ∈ calls, call.1 = project ∧
      ∃ file ∈ call.2.nedFiles, ∃ entry, file.Declares entry ∧ entry.qualifiedName = name := by
  constructor
  · intro h
    obtain ⟨⟨_, entry⟩, hentry, rfl⟩ := List.mem_map.1 h
    obtain ⟨hname, call, hcall, hproject, file, hfile, hdeclares⟩ := mem_registered_iff.1 hentry
    exact ⟨call, hcall, hproject, file, hfile, entry, hdeclares, hname.symm⟩
  · rintro ⟨call, hcall, hproject, file, hfile, entry, hdeclares, hname⟩
    exact List.mem_map.2 ⟨_, mem_registered_iff.2 ⟨hname.symm, call, hcall, hproject, file, hfile, hdeclares⟩, rfl⟩

theorem exists_call_of_get? {calls : List (String × Element)} {key : TypeKey} {entry : TypeEntry}
    (hentry : (addFiles calls).types.get? key = some entry) : ∃ call ∈ calls, call.1 = key.1 := by
  have hkey : key ∈ (addFiles calls).types.keys := List.mem_map_of_mem (Table.get?_eq_some_iff.1 hentry)
  rw [keys_addFiles, mem_keys_firsts] at hkey
  obtain ⟨call, hcall, hproject, -⟩ := mem_keys_registered_iff.1 hkey
  exact ⟨call, hcall, hproject⟩

/-- If no qualified name of a project is declared twice, every file that is added is registered. -/
theorem registers_addFiles {calls : List (String × Element)} (honce : ((registered calls).map Prod.fst).Nodup)
    {call : String × Element} (hcall : call ∈ calls) {file : Element} (hfile : file ∈ call.2.nedFiles) :
    (addFiles calls).Registers call.1 file := by
  intro entry hentry
  have hdeclares := Element.mem_fileDeclarations_iff.1 hentry
  have hmem : ((call.1, entry.qualifiedName), entry) ∈ registered calls :=
    mem_registered_iff.2 ⟨rfl, call, hcall, rfl, file, hfile, hdeclares⟩
  have hmatching : ((call.1, entry.qualifiedName), entry) ∈
      (registered calls).filter fun other => other.1 = (call.1, entry.qualifiedName) :=
    List.mem_filter.2 ⟨hmem, by simp⟩
  rw [types_addFiles_get?, lastRegistered?]
  cases hlast : ((registered calls).filter fun other => other.1 = (call.1, entry.qualifiedName)).getLast? with
  | none =>
    rw [List.getLast?_eq_none_iff.1 hlast] at hmatching
    exact absurd hmatching List.not_mem_nil
  | some last =>
    obtain ⟨hregistered, hkey⟩ := List.mem_filter.1 (List.mem_of_getLast? hlast)
    have heq : last = ((call.1, entry.qualifiedName), entry) :=
      List.inj_on_of_nodup_map honce hregistered hmem (of_decide_eq_true hkey)
    rw [heq]
    rfl

theorem qualifiedNames_addFiles (calls : List (String × Element)) (project : String) :
    (((addFiles calls).qualifiedNames project).map (project, ·)).Sublist (addFiles calls).types.keys := by
  have hnames : ((addFiles calls).qualifiedNames project).map (project, ·) =
      ((addFiles calls).types.entries.filter fun entry => entry.1.1 = project && entry.2.enclosing.isNone).map
        Prod.fst := by
    rw [qualifiedNames, List.map_map]
    refine List.map_congr_left fun entry hentry => ?_
    obtain ⟨hmem, hkeep⟩ := List.mem_filter.1 hentry
    have hnamed := (reached_addFiles calls).coherent.named (Table.get?_eq_some_iff.2 hmem)
    simp only [Bool.and_eq_true, decide_eq_true_eq] at hkeep
    exact Prod.ext hkeep.1.symm hnamed
  rw [hnames]
  exact List.filter_sublist.map _

theorem Coherent.mem_qualifiedNames_iff {index : TypeIndex} (h : index.Coherent) {project name : String} :
    name ∈ index.qualifiedNames project ↔
      ∃ entry, index.types.get? (project, name) = some entry ∧ entry.enclosing = none := by
  simp only [qualifiedNames, List.mem_map, List.mem_filter, Bool.and_eq_true, decide_eq_true_eq,
    Option.isNone_iff_eq_none, Prod.exists]
  constructor
  · rintro ⟨project, other, entry, ⟨hmem, rfl, htop⟩, rfl⟩
    have hentry := Table.get?_eq_some_iff.2 hmem
    have hnamed : entry.qualifiedName = other := h.named hentry
    exact ⟨entry, by rw [hnamed, hentry], htop⟩
  · rintro ⟨entry, hentry, htop⟩
    exact ⟨project, name, entry, ⟨Table.get?_eq_some_iff.1 hentry, rfl, htop⟩, h.named hentry⟩

theorem mem_qualifiedNames_addFiles {calls : List (String × Element)} {project name : String} :
    name ∈ (addFiles calls).qualifiedNames project ↔
      ∃ entry, lastRegistered? calls project name = some entry ∧ entry.enclosing = none := by
  rw [(reached_addFiles calls).coherent.mem_qualifiedNames_iff, types_addFiles_get?]

/-- Whatever trees are added, to however many projects and however often: a project contains a name if and only if a file that was added to it declares a type of the name, there are as many types as there are different pairs of a project and such a name, and each pair stands for the last declaration that was registered for it. A project lists each name once, in the order of the first registrations, and it lists those that were registered last at the top level of a file. -/
theorem listing_addFiles (calls : List (String × Element)) :
    (∀ project name, (addFiles calls).contains project name = true ↔ ∃ call ∈ calls, call.1 = project ∧
      ∃ file ∈ call.2.nedFiles, ∃ entry, file.Declares entry ∧ entry.qualifiedName = name) ∧
    (addFiles calls).size = ((registered calls).map Prod.fst).toFinset.card ∧
    (∀ key entry, (key, entry) ∈ registered calls ↔ key.2 = entry.qualifiedName ∧ ∃ call ∈ calls, call.1 = key.1 ∧
      ∃ file ∈ call.2.nedFiles, file.Declares entry) ∧
    (∀ project name, (addFiles calls).types.get? (project, name) = lastRegistered? calls project name) ∧
    ∀ project, ((addFiles calls).qualifiedNames project).Nodup ∧
      (∀ name, name ∈ (addFiles calls).qualifiedNames project ↔
        ∃ entry, lastRegistered? calls project name = some entry ∧ entry.enclosing = none) ∧
      ((addFiles calls).qualifiedNames project).Pairwise fun earlier later =>
        ((registered calls).map Prod.fst).idxOf (project, earlier) <
          ((registered calls).map Prod.fst).idxOf (project, later) := by
  have hkeys := keys_addFiles calls
  have hmem (key : TypeKey) : key ∈ (addFiles calls).types.keys ↔ key ∈ (registered calls).map Prod.fst := by
    rw [hkeys, mem_keys_firsts]
  refine ⟨fun project name => ?_, ?_, fun _ _ => mem_registered_iff, types_addFiles_get? calls,
    fun project => ⟨?_, fun _ => mem_qualifiedNames_addFiles, ?_⟩⟩
  · rw [contains, Table.contains_iff, hmem, mem_keys_registered_iff]
  · have hset : ((registered calls).map Prod.fst).toFinset = (addFiles calls).types.keys.toFinset :=
      List.toFinset_eq_iff_perm_dedup.2 (List.perm_of_nodup_nodup_toFinset_eq (List.nodup_dedup _)
        (List.nodup_dedup _) (by ext key; simp [← hmem]))
    have hnodup : (addFiles calls).types.keys.Nodup := (addFiles calls).types.nodup
    rw [hset, List.toFinset_card_of_nodup hnodup, Table.keys, List.length_map]
    rfl
  · have hnodup : (((addFiles calls).qualifiedNames project).map (project, ·)).Nodup :=
      (addFiles calls).types.nodup.sublist (qualifiedNames_addFiles calls project)
    exact hnodup.of_map _
  · have hordered := (pairwise_idxOf_firsts (registered calls)).sublist (hkeys ▸ qualifiedNames_addFiles calls project)
    rwa [List.pairwise_map] at hordered

end TypeIndex

end NedCheck
