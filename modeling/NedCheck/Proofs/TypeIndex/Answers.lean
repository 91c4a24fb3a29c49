import NedCheck.Proofs.TypeIndex.Building

/-!
# What an index answers

A look-up of a type with no cycle above it gives the type with the members of its linearization. Building such a type agrees with its linearization as long as what is remembered does; and what is remembered was built from the same registrations, since adding a file forgets everything. So without cycles the answers hang on what has been registered and on nothing else.
-/

namespace NedCheck

namespace TypeIndex

variable {index : TypeIndex}

/-- The type under a key, with the members of its linearization. -/
def linearized? (index : TypeIndex) (key : TypeKey) : Option TypeInfo :=
  (index.types.get? key).map fun entry => {
    name := entry.name
    qualifiedName := entry.qualifiedName
    element := entry.element
    headerContext := entry.headerContext
    members := ⟨index.linearization key, nodup_keys_linearizationTo _ key⟩ }

/-- What is remembered of each type is about its declaration, and is what its linearization says if no cycle is above it. -/
structure Consistent (index : TypeIndex) : Prop where
  sourced : index.Sourced
  linearized {key : TypeKey} {info : TypeInfo} : index.known.get? key = some info → index.AcyclicAbove key →
    index.linearized? key = some info

/-! ### Indexes with the same registrations -/

namespace SameRegistrations

variable {left right : TypeIndex} (h : SameRegistrations left right)

include h

theorem acyclic (hacyclic : left.Acyclic) : right.Acyclic := by
  unfold Acyclic
  rwa [← h.extends_eq]

theorem acyclicAbove {key : TypeKey} (hacyclic : left.AcyclicAbove key) : right.AcyclicAbove key := by
  unfold AcyclicAbove
  rwa [← h.extends_eq]

theorem linearization_eq : left.linearization = right.linearization := by
  have hto : ∀ depth key, left.linearizationTo depth key = right.linearizationTo depth key := by
    intro depth
    induction depth with
    | zero => exact fun key => rfl
    | succ depth ih =>
      intro key
      rw [linearizationTo, linearizationTo, h.types, h.bases_eq, funext ih]
  funext key
  rw [linearization, linearization, hto, size, size, h.types]

theorem linearized?_eq : left.linearized? = right.linearized? := by
  funext key
  unfold linearized?
  rw [h.types]
  cases right.types.get? key with
  | none => rfl
  | some entry =>
    simp only [Option.map_some, h.linearization_eq]

end SameRegistrations

/-! ### Building -/

theorem Consistent.inheritedOn_eq (hconsistent : index.Consistent) {depth : Nat} {path : List TypeKey}
    {entry : TypeEntry} (h : ∀ base ∈ index.bases entry, index.build depth path base = index.linearized? base) :
    index.inheritedOn depth path entry = (index.bases entry).flatMap index.linearization := by
  rw [hconsistent.sourced.inheritedOn_eq]
  apply List.flatMap_congr
  intro base hbase
  obtain ⟨declared, hdeclared, -⟩ := exists_of_mem_bases hbase
  rw [h base hbase, linearized?, hdeclared]
  rfl

theorem AcyclicAbove.linearized?_eq {key : TypeKey} {entry : TypeEntry} (hacyclic : index.AcyclicAbove key)
    (hentry : index.types.get? key = some entry) :
    index.linearized? key = some (entry.withInherited ((index.bases entry).flatMap index.linearization)) := by
  rw [linearized?, hentry, Option.map_some, TypeEntry.withInherited]
  congr 2
  apply Table.ext
  rw [Table.insertAll_append, Table.entries_insertAll_empty]
  exact hacyclic.linearization_eq hentry

/-- On the way through bases of the same kind no type is met twice and the depth does not run out. -/
theorem AcyclicAbove.build_eq {depth : Nat} {path : List TypeKey} {key : TypeKey} (hacyclic : index.AcyclicAbove key)
    (hconsistent : index.Consistent) (hpath : ∀ below ∈ path, Relation.TransGen index.Extends below key)
    (hdepth : index.height key < depth) : index.build depth path key = index.linearized? key := by
  induction depth generalizing path key with
  | zero => omega
  | succ depth ih =>
    cases hknown : index.known.get? key with
    | some info => rw [build_of_known hknown, hconsistent.linearized hknown hacyclic]
    | none =>
      cases hentry : index.types.get? key with
      | none => rw [build_eq_none hknown hentry, linearized?, hentry, Option.map_none]
      | some entry =>
        have hnew : key ∉ path := fun hmem => hacyclic.not_self (hpath key hmem)
        have hbases : ∀ base ∈ index.bases entry,
            index.build depth (key :: path) base = index.linearized? base := by
          intro base hbase
          have hextends : index.Extends key base := ⟨entry, hentry, hbase⟩
          have hlt := hacyclic.height_lt hextends
          apply ih (hacyclic.base hextends) _ (by omega)
          intro below hbelow
          rcases List.mem_cons.1 hbelow with heq | hbelow
          · exact heq ▸ .single hextends
          · exact (hpath below hbelow).tail hextends
        rw [build_succ hknown hentry hnew, hconsistent.inheritedOn_eq hbases, hacyclic.linearized?_eq hentry]

/-! ### Histories -/

theorem Reached.consistent (hreached : index.Reached) : index.Consistent := by
  have hknown := hreached.known_induction
    (P := fun index key info => (∃ entry, index.types.get? key = some entry ∧ info.element = entry.element) ∧
      (index.AcyclicAbove key → index.linearized? key = some info)) ?_ ?_
  · exact ⟨fun key info hget => (hknown key info hget).1, fun hget => (hknown _ _ hget).2⟩
  · intro left right key info hsame hleft
    rw [← hsame.linearized?_eq, ← hsame.types]
    exact ⟨hleft.1, fun hacyclic => hleft.2 (hsame.symm.acyclicAbove hacyclic)⟩
  · intro index key info hknown hbuild
    have hconsistent : index.Consistent :=
      ⟨fun key info hget => (hknown key info hget).1, fun hget => (hknown _ _ hget).2⟩
    refine ⟨hconsistent.sourced.element_of_build hbuild, fun hacyclic => ?_⟩
    rw [← hbuild]
    exact (hacyclic.build_eq hconsistent (by simp) (Nat.lt_succ_of_le (index.height_le_size key))).symm

theorem Reached.build_eq (hreached : index.Reached) {key : TypeKey} (hacyclic : index.AcyclicAbove key) :
    index.build (index.size + 1) [] key = index.linearized? key :=
  hacyclic.build_eq hreached.consistent (by simp) (Nat.lt_succ_of_le (index.height_le_size key))

theorem Reached.lookupType_eq (hreached : index.Reached) (hacyclic : index.Acyclic) (name : String)
    (context : LookupContext) :
    (index.lookupType name context).1 = (index.resolve? name context).bind index.linearized? := by
  rw [lookupType_fst, funext fun key => hreached.build_eq (hacyclic.above key)]

theorem Reached.lookupTopLevel_eq (hreached : index.Reached) (hacyclic : index.Acyclic)
    (qualifiedName project : String) :
    (index.lookupTopLevel qualifiedName project).1 =
      (index.topLevelKey? qualifiedName project).bind index.linearized? := by
  rw [lookupTopLevel_fst, funext fun key => hreached.build_eq (hacyclic.above key)]

/-- However an index came about, if no type extends itself in it then every look-up gives the declaration the name stands for with the members of its linearization, which is made out from the bases in order and the type's own members. Each member stands under the name of the element that declares it and names the type it is declared in, the type itself or one above it. Whatever has been asked of an index with the same registrations, its answers are the same. -/
theorem Reached.answers (hreached : index.Reached) (hacyclic : index.Acyclic) :
    (∀ name context,
      (index.lookupType name context).1 = (index.resolve? name context).bind index.linearized?) ∧
    (∀ qualifiedName project, (index.lookupTopLevel qualifiedName project).1 =
      (index.topLevelKey? qualifiedName project).bind index.linearized?) ∧
    (∀ key info, index.linearized? key = some info → ∃ entry, index.types.get? key = some entry ∧
      info.qualifiedName = entry.qualifiedName ∧ info.element = entry.element ∧
      info.members.entries = index.linearization key ∧
      index.linearization key = firsts ((index.bases entry).flatMap index.linearization ++ entry.ownMembers)) ∧
    (∀ key member, member ∈ index.linearization key → ∃ declaring entry,
      Relation.ReflTransGen index.Extends key declaring ∧ index.types.get? declaring = some entry ∧
      member ∈ entry.ownMembers ∧ member.1 = member.2.element.name ∧ member.2.owner = entry.qualifiedName) ∧
    (∀ other : TypeIndex, other.Reached → other.SameRegistrations index →
      (∀ name context, (other.lookupType name context).1 = (index.lookupType name context).1) ∧
      (∀ qualifiedName project,
        (other.lookupTopLevel qualifiedName project).1 = (index.lookupTopLevel qualifiedName project).1)) := by
  refine ⟨hreached.lookupType_eq hacyclic, hreached.lookupTopLevel_eq hacyclic, ?_, ?_, ?_⟩
  · intro key info hinfo
    obtain ⟨entry, hentry, rfl⟩ := Option.map_eq_some_iff.1 hinfo
    exact ⟨entry, hentry, rfl, rfl, rfl, (hacyclic.above key).linearization_eq hentry⟩
  · intro key member hmember
    obtain ⟨declaring, entry, habove, hentry, hown⟩ := exists_of_mem_linearizationTo hmember
    obtain ⟨e, -, rfl⟩ := List.mem_map.1 hown
    exact ⟨declaring, entry, habove, hentry, hown, rfl, rfl⟩
  · intro other hother hsame
    have hacyclicOther := hsame.symm.acyclic hacyclic
    refine ⟨fun name context => ?_, fun qualifiedName project => ?_⟩
    · rw [hreached.lookupType_eq hacyclic, hother.lookupType_eq hacyclicOther, hsame.resolve?_eq,
        hsame.linearized?_eq]
    · rw [hreached.lookupTopLevel_eq hacyclic, hother.lookupTopLevel_eq hacyclicOther, hsame.linearized?_eq,
        topLevelKey?, topLevelKey?, hsame.types]

/-- A file with a module and a second one that extends it, each with a parameter of its own. -/
def inheritanceFile : Element :=
  let parameters (name : String) : Element :=
    { Element.new .parameters with children := [⟨0, .param, .fill _ ["int", "false", name], [], none, {}⟩] }
  let base : Element := ⟨0, .simpleModule, .fill _ ["A"], [parameters "x"], none, {}⟩
  let extension : Element := ⟨0, .extendsName, .fill _ ["A"], [], none, {}⟩
  let derived : Element := ⟨0, .simpleModule, .fill _ ["B"], [extension, parameters "y"], none, {}⟩
  ⟨0, .nedFile, .fill _ ["a.ned"], [base, derived], none, {}⟩

/-- The second look-up is answered from what the first one left behind. -/
theorem Reached.answers_inheritanceFile :
    ((((TypeIndex.empty.addFile "p" inheritanceFile).lookupType "B" (.file "a.ned")).2.lookupType "B"
      (.file "a.ned")).1.map fun info => info.members.keys) = some ["x", "y"] := by
  have hreached : ((TypeIndex.empty.addFile "p" inheritanceFile).lookupType "B" (.file "a.ned")).2.Reached :=
    .lookupType _ _ (.addFile _ _ .empty)
  have hacyclic : ((TypeIndex.empty.addFile "p" inheritanceFile).lookupType "B" (.file "a.ned")).2.Acyclic :=
    Acyclic.of_rank (fun key => if key.2 = "B" then 1 else 0) (by decide +kernel)
  rw [(hreached.answers hacyclic).1]
  decide +kernel

end TypeIndex

end NedCheck
