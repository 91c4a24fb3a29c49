import NedCheck.Proofs.TypeIndex.Building

/-!
# Members under cyclic inheritance

A type has the members of all types it inherits from, cycles or not. The guard that ends a cycle leaves a base out only where the base is on the path already, so a type that can be reached at all is still met on a way that passes through no type twice: after its last visit to the first type such a way goes on from one of the bases and never comes back. `InheritsAvoiding.cases` is this step, and the induction follows it along the path that `build` keeps.

What is worked out on a path may lack what the path cut off, but only whole types, worked out on the empty path, are remembered. `Covers` says what a whole type is, and it is what every look-up answers with.
-/

namespace NedCheck

namespace TypeIndex

variable {index : TypeIndex} {path : List TypeKey} {key base above : TypeKey} {entry : TypeEntry}
  {info : TypeInfo} {depth : Nat}

/-! ### Inheritance -/

/-- The type is the other one or has it as a base, directly or through others. -/
def Inherits (index : TypeIndex) : TypeKey → TypeKey → Prop := Relation.ReflTransGen index.Extends

/-- The type inherits from the other one by way of types that are not on the path. -/
def InheritsAvoiding (index : TypeIndex) (path : List TypeKey) : TypeKey → TypeKey → Prop :=
  Relation.ReflTransGen fun key base => index.Extends key base ∧ base ∉ path

theorem InheritsAvoiding.inherits (h : index.InheritsAvoiding path key above) : index.Inherits key above :=
  Relation.ReflTransGen.mono (fun _ _ hstep => hstep.1) _ _ h

theorem Inherits.avoiding_nil (h : index.Inherits key above) : index.InheritsAvoiding [] key above :=
  Relation.ReflTransGen.mono (fun _ _ hstep => ⟨hstep, List.not_mem_nil⟩) _ _ h

/-- A way to another type leaves the first one for good by way of one of its bases. -/
theorem InheritsAvoiding.cases (h : index.InheritsAvoiding path key above) :
    above = key ∨
      ∃ base, index.Extends key base ∧ base ∉ key :: path ∧ index.InheritsAvoiding (key :: path) base above := by
  induction h with
  | refl => exact .inl rfl
  | @tail middle above _ hstep ih =>
    obtain ⟨hextends, hnew⟩ := hstep
    by_cases hback : above = key
    · exact .inl hback
    · have hfresh : above ∉ key :: path := by simp [hback, hnew]
      rcases ih with hmiddle | ⟨base, hbase, hbaseNew, hway⟩
      · exact .inr ⟨above, hmiddle ▸ hextends, hfresh, .refl⟩
      · exact .inr ⟨base, hbase, hbaseNew, hway.tail ⟨hextends, hfresh⟩⟩

/-! ### Whole types -/

/-- The type is the one declared under the key and has a member under every name that a type it inherits from declares, and each member is declared by such a type. -/
structure Covers (index : TypeIndex) (key : TypeKey) (info : TypeInfo) : Prop where
  declared : ∃ entry inherited, index.types.get? key = some entry ∧ info = entry.withInherited inherited
  names (name : String) : name ∈ info.members.keys ↔ ∃ above entry, index.Inherits key above ∧
    index.types.get? above = some entry ∧ name ∈ entry.ownMembers.map Prod.fst
  owners (member : String × Member) : member ∈ info.members.entries →
    ∃ above entry, index.Inherits key above ∧ index.types.get? above = some entry ∧ member ∈ entry.ownMembers

/-- Whatever is remembered is a whole type. -/
def Faithful (index : TypeIndex) : Prop :=
  ∀ key info, index.known.get? key = some info → index.Covers key info

/-! ### Working out a type -/

namespace Faithful

variable (hfaithful : index.Faithful)

include hfaithful

theorem declared_of_build (h : index.build depth path key = some info) :
    ∃ entry inherited, index.types.get? key = some entry ∧ info = entry.withInherited inherited := by
  rcases build_cases h with hknown | ⟨below, entry, -, hentry, heq⟩
  · exact (hfaithful key info hknown).declared
  · exact ⟨entry, _, hentry, heq⟩

theorem sourced : index.Sourced := by
  intro key info hknown
  obtain ⟨entry, inherited, hentry, rfl⟩ := (hfaithful key info hknown).declared
  exact ⟨entry, hentry, rfl⟩

theorem mem_inheritedOn_iff {member : String × Member} :
    member ∈ index.inheritedOn depth path entry ↔
      ∃ base ∈ index.bases entry, ∃ info, index.build depth path base = some info ∧
        member ∈ info.members.entries := by
  rw [hfaithful.sourced.inheritedOn_eq, List.mem_flatMap]
  refine exists_congr fun base => and_congr_right fun _ => ?_
  cases index.build depth path base <;> simp

theorem exists_of_mem_build {member : String × Member} (h : index.build depth path key = some info)
    (hmember : member ∈ info.members.entries) :
    ∃ above entry, index.Inherits key above ∧ index.types.get? above = some entry ∧ member ∈ entry.ownMembers := by
  induction depth generalizing path key info with
  | zero => exact absurd h (by simp [build])
  | succ depth ih =>
    rcases build_cases h with hknown | ⟨below, entry, hbelow, hentry, heq⟩
    · exact (hfaithful key info hknown).owners member hmember
    · rw [heq, TypeEntry.entries_withInherited] at hmember
      rcases List.mem_append.1 (firsts_subset _ hmember) with hinherited | hown
      · obtain ⟨base, hbase, found, hfound, hmember⟩ := hfaithful.mem_inheritedOn_iff.1 hinherited
        rw [← Nat.succ.inj hbelow] at hfound
        obtain ⟨above, declaring, habove, hdeclaring⟩ := ih hfound hmember
        exact ⟨above, declaring, .head ⟨entry, hentry, hbase⟩ habove, hdeclaring⟩
      · exact ⟨key, entry, .refl, hentry, hown⟩

/-- A type that is not on the path is worked out with a member under every name that is declared by a type it inherits from without crossing the path. -/
theorem exists_build_eq_some (hpath : index.IsPath path) (hdepth : index.size < path.length + depth)
    (hentry : index.types.get? key = some entry) (hnew : key ∉ path) :
    ∃ info, index.build depth path key = some info ∧
      ∀ above declaring, index.InheritsAvoiding path key above → index.types.get? above = some declaring →
        ∀ name ∈ declaring.ownMembers.map Prod.fst, name ∈ info.members.keys := by
  induction depth generalizing path key entry with
  | zero => exact absurd rfl (hpath.depth_ne_zero hdepth)
  | succ depth ih =>
    cases hknown : index.known.get? key with
    | some info =>
      refine ⟨info, build_of_known hknown, ?_⟩
      intro above declaring hway hdeclaring name hname
      exact ((hfaithful key info hknown).names name).2 ⟨above, declaring, hway.inherits, hdeclaring, hname⟩
    | none =>
      refine ⟨_, build_succ hknown hentry hnew, ?_⟩
      intro above declaring hway hdeclaring name hname
      rw [TypeEntry.mem_keys_withInherited]
      rcases hway.cases with heq | ⟨base, hextends, hbaseNew, hway⟩
      · rw [heq, hentry, Option.some.injEq] at hdeclaring
        exact .inr (hdeclaring ▸ hname)
      · obtain ⟨found, hfound, hbase⟩ := hextends
        rw [hentry, Option.some.injEq] at hfound
        rw [← hfound] at hbase
        obtain ⟨declared, hdeclared, -⟩ := exists_of_mem_bases hbase
        obtain ⟨info, hbuild, hnames⟩ :=
          ih (hpath.cons hentry hnew) (by rw [List.length_cons]; omega) hdeclared hbaseNew
        obtain ⟨member, hmember, rfl⟩ := List.mem_map.1 (hnames above declaring hway hdeclaring name hname)
        exact .inl (List.mem_map_of_mem (hfaithful.mem_inheritedOn_iff.2 ⟨base, hbase, info, hbuild, hmember⟩))

theorem exists_covers (hentry : index.types.get? key = some entry) :
    ∃ info, index.build (index.size + 1) [] key = some info ∧ index.Covers key info := by
  have hdepth : index.size < ([] : List TypeKey).length + (index.size + 1) := by
    rw [List.length_nil]
    omega
  obtain ⟨info, hbuild, hnames⟩ :=
    hfaithful.exists_build_eq_some (.nil index) hdepth hentry List.not_mem_nil
  refine ⟨info, hbuild, hfaithful.declared_of_build hbuild, fun name => ⟨?_, ?_⟩, fun member hmember => ?_⟩
  · intro hname
    obtain ⟨member, hmember, rfl⟩ := List.mem_map.1 hname
    obtain ⟨above, declaring, habove, hdeclaring, hown⟩ := hfaithful.exists_of_mem_build hbuild hmember
    exact ⟨above, declaring, habove, hdeclaring, List.mem_map_of_mem hown⟩
  · intro hname
    obtain ⟨above, declaring, habove, hdeclaring, hown⟩ := hname
    exact hnames above declaring (Inherits.avoiding_nil habove) hdeclaring name hown
  · exact hfaithful.exists_of_mem_build hbuild hmember

theorem covers_of_build (hbuild : index.build (index.size + 1) [] key = some info) : index.Covers key info := by
  obtain ⟨entry, -, hentry, -⟩ := hfaithful.declared_of_build hbuild
  obtain ⟨found, hfound, hcovers⟩ := hfaithful.exists_covers hentry
  rw [hbuild, Option.some.injEq] at hfound
  exact hfound ▸ hcovers

end Faithful

/-! ### Histories -/

theorem Covers.congr {other : TypeIndex} (h : index.Covers key info) (hsame : SameRegistrations index other) :
    other.Covers key info := by
  have hinherits : other.Inherits = index.Inherits := by rw [Inherits, Inherits, hsame.extends_eq]
  refine ⟨?_, ?_, ?_⟩
  · rw [← hsame.types]
    exact h.declared
  · rw [hinherits, ← hsame.types]
    exact h.names
  · rw [hinherits, ← hsame.types]
    exact h.owners

namespace Reached

theorem faithful (hreached : index.Reached) : index.Faithful :=
  hreached.known_induction (fun hsame hcovers => hcovers.congr hsame)
    fun hfaithful hbuild => Faithful.covers_of_build hfaithful hbuild

/-- However an index came about, with cyclic inheritance or without and whatever has been looked up, a name that stands for a type is answered with that type as a whole: its members have exactly the names that the type and the types it inherits from declare, and each member is declared under its name by one of them, which it names as its owner. -/
theorem members_of_lookup (hreached : index.Reached) :
    (∀ name context, (index.lookupType name context).1.isSome = (index.resolve? name context).isSome) ∧
    (∀ qualifiedName project, (index.lookupTopLevel qualifiedName project).1.isSome =
      (index.topLevelKey? qualifiedName project).isSome) ∧
    (∀ name context key info, index.resolve? name context = some key →
      (index.lookupType name context).1 = some info → index.Covers key info) ∧
    (∀ qualifiedName project info, (index.lookupTopLevel qualifiedName project).1 = some info →
      index.Covers (project, qualifiedName) info) ∧
    (∀ key entry member, index.types.get? key = some entry → member ∈ entry.ownMembers →
      member.2.owner = key.2 ∧ member.1 = member.2.element.name ∧
        member.2.element ∈ entry.element.children.flatMap (·.sectionDeclarations)) := by
  have hfaithful := hreached.faithful
  have hcoherent := hreached.coherent
  have hanswered : ∀ {key entry}, index.types.get? key = some entry →
      (index.build (index.size + 1) [] key).isSome = true := by
    intro key entry hentry
    obtain ⟨info, hbuild, -⟩ := hfaithful.exists_covers hentry
    rw [hbuild, Option.isSome_some]
  refine ⟨?_, ?_, ?_, ?_, ?_⟩
  · intro name context
    rw [lookupType_fst]
    cases hresolve : index.resolve? name context with
    | none => rfl
    | some key =>
      obtain ⟨entry, hentry⟩ := hcoherent.exists_of_resolve? hresolve
      rw [Option.bind_some, hanswered hentry, Option.isSome_some]
  · intro qualifiedName project
    rw [lookupTopLevel_fst]
    cases htop : index.topLevelKey? qualifiedName project with
    | none => rfl
    | some key =>
      obtain ⟨entry, hentry, rfl⟩ := Option.map_eq_some_iff.1 htop
      rw [Option.bind_some, hanswered (Option.eq_some_of_filter_eq_some hentry), Option.isSome_some]
  · intro name context key info hresolve hlookup
    rw [lookupType_fst, hresolve, Option.bind_some] at hlookup
    exact hfaithful.covers_of_build hlookup
  · intro qualifiedName project info hlookup
    rw [lookupTopLevel_fst] at hlookup
    obtain ⟨key, htop, hbuild⟩ := Option.bind_eq_some_iff.1 hlookup
    obtain ⟨entry, -, rfl⟩ := Option.map_eq_some_iff.1 htop
    exact hfaithful.covers_of_build hbuild
  · intro key entry member hentry hmember
    obtain ⟨e, he, rfl⟩ := List.mem_map.1 hmember
    exact ⟨hcoherent.named hentry, rfl, he⟩

/-- A file with two modules that extend each other, each with a parameter of its own. -/
def cycleFile : Element :=
  let extending (name base param : String) : Element :=
    ⟨0, .simpleModule, .fill _ [name], [
      ⟨0, .extendsName, .fill _ [base], [], none, {}⟩,
      { Element.new .parameters with children := [⟨0, .param, .fill _ ["int", "false", param], [], none, {}⟩] }],
      none, {}⟩
  ⟨0, .nedFile, .fill _ ["a.ned"], [extending "A" "B" "x", extending "B" "A" "y"], none, {}⟩

/-- The second module is looked up after the first one, which is remembered by then. -/
theorem members_of_lookup_cycle :
    ∃ info, (((TypeIndex.empty.addFile "p" cycleFile).lookupType "A" (.file "a.ned")).2.lookupType "B"
        (.file "a.ned")).1 = some info ∧ info.members.keys = ["y", "x"] ∧
      Covers ((TypeIndex.empty.addFile "p" cycleFile).lookupType "A" (.file "a.ned")).2 ("p", "B") info := by
  have hreached : ((TypeIndex.empty.addFile "p" cycleFile).lookupType "A" (.file "a.ned")).2.Reached :=
    .lookupType _ _ (.addFile _ _ .empty)
  have hresolve : ((TypeIndex.empty.addFile "p" cycleFile).lookupType "A" (.file "a.ned")).2.resolve? "B"
      (.file "a.ned") = some ("p", "B") := by decide +kernel
  have hkeys : ((((TypeIndex.empty.addFile "p" cycleFile).lookupType "A" (.file "a.ned")).2.lookupType "B"
      (.file "a.ned")).1.map fun info => info.members.keys) = some ["y", "x"] := by decide +kernel
  obtain ⟨info, hlookup, hkeys⟩ := Option.map_eq_some_iff.1 hkeys
  exact ⟨info, hlookup, hkeys, hreached.members_of_lookup.2.2.1 _ _ _ info hresolve hlookup⟩

end Reached

end TypeIndex

end NedCheck
