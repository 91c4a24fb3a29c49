import NedCheck.Proofs.TypeIndex.Answers
import NedCheck.Proofs.TypeIndex.Inheritance

/-!
# What earlier look-ups change

With a cycle above a type it makes a difference whether a base is remembered or worked out on the way: a remembered base is whole, the other one lacks what the path cuts off, and so the members come in another order. What has been looked up before shows in that order, and where two of the types declare one name it shows in which of them counts.

Nothing else shows. Two histories that end in the same registrations give answers that `Agree`: the declaration and the names of the members are the same in any case, each name stands for the same member where no two types declare it, and the answers are equal where no cycle is above the type.
-/

namespace NedCheck

namespace TypeIndex

variable {index left right : TypeIndex} {key : TypeKey} {info other : TypeInfo}

/-- The types that a type inherits from have no two members with one name between them. -/
def Unambiguous (index : TypeIndex) (key : TypeKey) : Prop :=
  ∀ above entry above' entry' member member',
    index.Inherits key above → index.types.get? above = some entry → member ∈ entry.ownMembers →
    index.Inherits key above' → index.types.get? above' = some entry' → member' ∈ entry'.ownMembers →
    member.1 = member'.1 → member = member'

/-- What two answers about a type have in common, whatever has been looked up before each. -/
structure Agree (index : TypeIndex) (key : TypeKey) (info other : TypeInfo) : Prop where
  name : info.name = other.name
  qualifiedName : info.qualifiedName = other.qualifiedName
  element : info.element = other.element
  headerContext : info.headerContext = other.headerContext
  names (name : String) : name ∈ info.members.keys ↔ name ∈ other.members.keys
  members : index.Unambiguous key → ∀ name, info.member? name = other.member? name
  equal : index.AcyclicAbove key → info = other

/-- Either the name stands for nothing and there is no answer, or both answers are about the type it stands for. -/
inductive AnswersAgree (index : TypeIndex) : Option TypeKey → Option TypeInfo → Option TypeInfo → Prop where
  | none : AnswersAgree index none none none
  | some {key : TypeKey} {info other : TypeInfo} : index.Agree key info other →
    AnswersAgree index (some key) (some info) (some other)

theorem AnswersAgree.tag_eq {key? : Option TypeKey} {found other : Option TypeInfo}
    (h : index.AnswersAgree key? found other) : found.map TypeInfo.tag = other.map TypeInfo.tag := by
  cases h with
  | none => rfl
  | some hagree => exact congrArg Option.some (congrArg Element.tag hagree.element)

theorem Covers.names_iff (h : index.Covers key info) (hother : index.Covers key other) (name : String) :
    name ∈ info.members.keys ↔ name ∈ other.members.keys := by
  rw [h.names, hother.names]

theorem Covers.member?_eq (h : index.Covers key info) (hother : index.Covers key other)
    (hunambiguous : index.Unambiguous key) (name : String) : info.member? name = other.member? name := by
  cases hmember : info.member? name with
  | none =>
    have hunnamed := Table.get?_eq_none_iff.1 hmember
    rw [h.names_iff hother] at hunnamed
    exact (Table.get?_eq_none_iff.2 hunnamed).symm
  | some member =>
    have hentry := Table.get?_eq_some_iff.1 hmember
    have hnamed : name ∈ other.members.keys := (h.names_iff hother name).1 (List.mem_map_of_mem hentry)
    obtain ⟨⟨found, second⟩, hsecond, rfl⟩ := List.mem_map.1 hnamed
    obtain ⟨above, entry, habove, hdeclared, hown⟩ := h.owners _ hentry
    obtain ⟨above', entry', habove', hdeclared', hown'⟩ := hother.owners _ hsecond
    have heq := hunambiguous above entry above' entry' _ _ habove hdeclared hown habove' hdeclared' hown' rfl
    have hsame : member = second := congrArg Prod.snd heq
    rw [hsame]
    exact (Table.get?_eq_some_iff.2 hsecond).symm

namespace Reached

variable (hleft : left.Reached) (hright : right.Reached) (hsame : SameRegistrations left right)

include hleft hright hsame

theorem answersAgree_build {entry : TypeEntry} (hentry : left.types.get? key = some entry) :
    left.AnswersAgree (some key) (left.build (left.size + 1) [] key) (right.build (right.size + 1) [] key) := by
  obtain ⟨info, hinfo, hcovers⟩ := hleft.faithful.exists_covers hentry
  obtain ⟨other, hother, hcoversRight⟩ := hright.faithful.exists_covers (hsame.types ▸ hentry)
  have hcoversOther : left.Covers key other := hcoversRight.congr hsame.symm
  rw [hinfo, hother]
  refine .some ⟨?_, ?_, ?_, ?_, hcovers.names_iff hcoversOther, hcovers.member?_eq hcoversOther, ?_⟩
  -- both are the declaration with some inherited members
  iterate 4
    obtain ⟨declared, inherited, hdeclared, rfl⟩ := hcovers.declared
    obtain ⟨declared', inherited', hdeclared', rfl⟩ := hcoversOther.declared
    rw [Option.some.inj (hdeclared.symm.trans hdeclared')]
    rfl
  · intro hacyclic
    have hequal : left.build (left.size + 1) [] key = right.build (right.size + 1) [] key := by
      rw [hleft.build_eq hacyclic, hright.build_eq (hsame.acyclicAbove hacyclic), hsame.linearized?_eq]
    rw [hinfo, hother] at hequal
    exact Option.some.inj hequal

theorem answersAgree_lookupType (name : String) (context : LookupContext) :
    left.AnswersAgree (left.resolve? name context) (left.lookupType name context).1
      (right.lookupType name context).1 := by
  rw [lookupType_fst, lookupType_fst, ← hsame.resolve?_eq]
  cases hresolve : left.resolve? name context with
  | none => exact .none
  | some key =>
    obtain ⟨entry, hentry⟩ := hleft.coherent.exists_of_resolve? hresolve
    exact answersAgree_build hleft hright hsame hentry

theorem answersAgree_lookupTopLevel (qualifiedName project : String) :
    left.AnswersAgree (left.topLevelKey? qualifiedName project) (left.lookupTopLevel qualifiedName project).1
      (right.lookupTopLevel qualifiedName project).1 := by
  have htopRight : right.topLevelKey? qualifiedName project = left.topLevelKey? qualifiedName project := by
    rw [topLevelKey?, topLevelKey?, hsame.types]
  rw [lookupTopLevel_fst, lookupTopLevel_fst, htopRight]
  cases htop : left.topLevelKey? qualifiedName project with
  | none => exact .none
  | some key =>
    obtain ⟨entry, hentry, rfl⟩ := Option.map_eq_some_iff.1 htop
    exact answersAgree_build hleft hright hsame (Option.eq_some_of_filter_eq_some hentry)

/-- Two indexes that came about by any histories and have the same registrations answer every look-up alike: both find nothing, or both find the type that the name stands for, with the same declaration and the same names of members. A name that no two types above declare stands for the same member in both, and with no cycle above the type the answers are equal. -/
theorem answersAgree_lookup :
    (∀ name context, left.AnswersAgree (left.resolve? name context) (left.lookupType name context).1
      (right.lookupType name context).1) ∧
    (∀ qualifiedName project, left.AnswersAgree (left.topLevelKey? qualifiedName project)
      (left.lookupTopLevel qualifiedName project).1 (right.lookupTopLevel qualifiedName project).1) :=
  ⟨answersAgree_lookupType hleft hright hsame, answersAgree_lookupTopLevel hleft hright hsame⟩

end Reached

/-- A file with two modules that extend each other. Both declare a parameter `x`, and each another one of its own. -/
def rivalFile : Element :=
  let extending (name base param : String) : Element :=
    ⟨0, .simpleModule, .fill _ [name], [
      ⟨0, .extendsName, .fill _ [base], [], none, {}⟩,
      { Element.new .parameters with children := [
        ⟨0, .param, .fill _ ["int", "false", "x"], [], none, {}⟩,
        ⟨0, .param, .fill _ ["int", "false", param], [], none, {}⟩] }],
      none, {}⟩
  ⟨0, .nedFile, .fill _ ["a.ned"], [extending "A" "B" "a", extending "B" "A" "b"], none, {}⟩

/-- A look-up of one module changes the order of the other one's members and which of the two parameters `x` it has. -/
theorem lookupType_rivalFile :
    let index := TypeIndex.empty.addFile "p" rivalFile
    let members (index : TypeIndex) := (index.lookupType "B" (.file "a.ned")).1.map fun info =>
      info.members.entries.map fun entry => (entry.1, entry.2.owner)
    members index = some [("x", "A"), ("a", "A"), ("b", "B")] ∧
      members (index.lookupType "A" (.file "a.ned")).2 = some [("x", "B"), ("b", "B"), ("a", "A")] := by
  decide +kernel

/-- The two answers on the module still agree. -/
theorem answersAgree_lookup_rivalFile :
    let index := TypeIndex.empty.addFile "p" rivalFile
    AnswersAgree index (some ("p", "B")) (index.lookupType "B" (.file "a.ned")).1
      ((index.lookupType "A" (.file "a.ned")).2.lookupType "B" (.file "a.ned")).1 := by
  intro index
  have hindex : index.Reached := .addFile _ _ .empty
  have hasked : (index.lookupType "A" (.file "a.ned")).2.Reached := .lookupType _ _ hindex
  have hsame := (index.sameRegistrations_lookupType "A" (.file "a.ned")).symm
  have hresolve : index.resolve? "B" (.file "a.ned") = some ("p", "B") := by decide +kernel
  rw [← hresolve]
  exact (Reached.answersAgree_lookup hindex hasked hsame).1 "B" (.file "a.ned")

end TypeIndex

end NedCheck
