import NedCheck.Proofs.TypeIndex.Answers
import NedCheck.Proofs.Validation.Filling
import NedCheck.Proofs.Validation.Repetition
import NedCheck.Proofs.Validation.Visits

/-!
# Two tables of one type

The members of a type are worked out twice. A validation gathers them in document order, as it comes to the parts of the declaration, and the index takes the bases first and then the sections. For a type that is validated without a finding both come to the same map, but for the names of its inner types: the validation lets an inner type take over a name that is taken, and the index keeps what came first. So the two agree on a type with no cycle above it if and only if the index has each of its inner types under the name of that type.
-/

namespace NedCheck

/-! ### Tables -/

theorem Filled.get?_eq {table members : Table String Member} {added inner : Set (String × Member)}
    {brought : List (String × Member)} (h : Filled ∅ table added inner) (hmembers : members.entries = firsts brought)
    (hbrought : ∀ entry, entry ∈ brought ↔ entry ∈ added ∨ entry ∈ inner) {name : String}
    (hname : ∀ entry ∈ inner, entry.1 ≠ name) : table.get? name = members.get? name := by
  have hadded (member : Member) : (name, member) ∈ table.entries ↔ (name, member) ∈ added := by
    rw [h.outside (name, member) hname]
    simp
  have hsource {member : Member} (hmember : (name, member) ∈ brought) : (name, member) ∈ added :=
    ((hbrought _).1 hmember).resolve_right fun hinner => hname _ hinner rfl
  apply Option.ext
  intro member
  rw [Table.get?_eq_some_iff, Table.get?_eq_some_iff, hadded, hmembers]
  constructor
  · intro hmember
    have hkey : name ∈ (firsts brought).map Prod.fst :=
      mem_keys_firsts.2 (List.mem_map_of_mem ((hbrought _).2 (.inl hmember)))
    obtain ⟨⟨other, first⟩, hfirst, rfl⟩ := List.mem_map.1 hkey
    -- the first entry is in the table as well, which has one under each name
    have htable := Table.get?_eq_some_iff.2 ((hadded first).2 (hsource (firsts_subset _ hfirst)))
    have hmemberTable := Table.get?_eq_some_iff.2 ((hadded member).2 hmember)
    have hsame : first = member := Option.some.inj (htable.symm.trans hmemberTable)
    exact hsame ▸ hfirst
  · exact fun hmember => hsource (firsts_subset _ hmember)

/-! ### What the index puts together -/

namespace TypeIndex

variable {index later : TypeIndex} {entry : TypeEntry} {key : TypeKey}

/-- The type that a base in the header of a declaration stands for, with the members of its linearization. -/
def base? (index : TypeIndex) (context : LookupContext) (part : Element) : Option TypeInfo :=
  (index.resolve? part.name context).bind index.linearized?

theorem mem_inherited_iff {member : String × Member} :
    member ∈ (index.bases entry).flatMap index.linearization ↔ ∃ part ∈ entry.element.children,
      part.tag = .extendsName ∧ ∃ base, index.base? entry.headerContext part = some base ∧
        base.tag = entry.element.tag ∧ member ∈ base.members.entries := by
  rw [List.mem_flatMap]
  constructor
  · rintro ⟨key, hbase, hmember⟩
    obtain ⟨declared, hdeclared, hkind⟩ := exists_of_mem_bases hbase
    obtain ⟨part, hpart, hresolve⟩ := List.mem_filterMap.1 (List.mem_filter.1 hbase).1
    obtain ⟨hpart, htag⟩ := List.mem_filter.1 hpart
    refine ⟨part, hpart, of_decide_eq_true htag, ?_⟩
    rw [base?, hresolve, Option.bind_some, linearized?, hdeclared]
    exact ⟨_, rfl, hkind, hmember⟩
  · rintro ⟨part, hpart, htag, base, hbase, hkind, hmember⟩
    obtain ⟨key, hresolve, hlinearized⟩ := Option.bind_eq_some_iff.1 hbase
    obtain ⟨declared, hdeclared, rfl⟩ := Option.map_eq_some_iff.1 hlinearized
    refine ⟨key, List.mem_filter.2 ⟨?_, isSameKind_iff.2 ⟨declared, hdeclared, hkind⟩⟩, hmember⟩
    exact List.mem_filterMap.2 ⟨part, List.mem_filter.2 ⟨hpart, decide_eq_true htag⟩, hresolve⟩

theorem mem_ownMembers_iff {member : String × Member} :
    member ∈ entry.ownMembers ↔ ∃ part ∈ entry.element.children, ∃ d ∈ part.sectionDeclarations,
      member = (d.name, ⟨d, entry.qualifiedName⟩) := by
  simp only [TypeEntry.ownMembers, List.mem_map, List.mem_flatMap]
  grind

theorem mem_bringsInner_iff (hsound : entry.element.Sound) {member : String × Member} :
    (∃ part ∈ entry.element.children, member ∈ Validator.bringsInner entry.opened part) ↔
      ∃ d ∈ entry.element.innerTypes, member = (d.name, ⟨d, entry.qualifiedName⟩) := by
  constructor
  · rintro ⟨part, hpart, htag, d, hd, rfl⟩
    rw [Element.sectionDeclarations, htag] at hd
    obtain ⟨hd, htype⟩ := List.mem_filter.1 hd
    exact ⟨d, hsound.mem_innerTypes_iff.2 ⟨part, hpart, htag, hd, htype⟩, rfl⟩
  · rintro ⟨d, hd, rfl⟩
    obtain ⟨part, hpart, htag, hd, htype⟩ := hsound.mem_innerTypes_iff.1 hd
    refine ⟨part, hpart, htag, d, ?_, rfl⟩
    rw [Element.sectionDeclarations, htag]
    exact List.mem_filter.2 ⟨hd, htype⟩

/-- The index puts together what a validation gathers. -/
theorem mem_inherited_append_iff (hsound : entry.element.Sound) {member : String × Member} :
    member ∈ (index.bases entry).flatMap index.linearization ++ entry.ownMembers ↔
      (∃ part ∈ entry.element.children,
        member ∈ Validator.brings (index.base? entry.headerContext) entry.opened part) ∨
      ∃ d ∈ entry.element.innerTypes, member = (d.name, ⟨d, entry.qualifiedName⟩) := by
  rw [List.mem_append, mem_inherited_iff, mem_ownMembers_iff, ← mem_bringsInner_iff hsound]
  constructor
  · rintro (⟨part, hpart, hinherited⟩ | ⟨part, hpart, hown⟩)
    · exact .inl ⟨part, hpart, .inl hinherited⟩
    · by_cases htag : part.tag = .types
      · exact .inr ⟨part, hpart, htag, hown⟩
      · exact .inl ⟨part, hpart, .inr ⟨htag, hown⟩⟩
  · rintro (⟨part, hpart, hinherited | ⟨-, hown⟩⟩ | ⟨part, hpart, -, hown⟩)
    · exact .inl ⟨part, hpart, hinherited⟩
    · exact .inr ⟨part, hpart, hown⟩
    · exact .inr ⟨part, hpart, hown⟩

/-! ### What the index answers during a walk -/

theorem Reached.exists_extends (hreached : index.Reached) (hentry : index.types.get? key = some entry)
    {part : Element} (hpart : part ∈ entry.element.children) (htag : part.tag = .extendsName) {base : TypeInfo}
    (hlookup : (index.lookupType part.name entry.headerContext).1 = some base) (hkind : base.tag = entry.element.tag) :
    ∃ above, index.resolve? part.name entry.headerContext = some above ∧ index.Extends key above ∧
      index.build (index.size + 1) [] above = some base := by
  rw [lookupType_fst] at hlookup
  obtain ⟨above, hresolve, hbuild⟩ := Option.bind_eq_some_iff.1 hlookup
  obtain ⟨declared, hdeclared, helement⟩ := hreached.consistent.sourced.element_of_build hbuild
  refine ⟨above, hresolve, ⟨entry, hentry, List.mem_filter.2 ⟨?_, isSameKind_iff.2 ⟨declared, hdeclared, ?_⟩⟩⟩, hbuild⟩
  · exact List.mem_filterMap.2 ⟨part, List.mem_filter.2 ⟨hpart, decide_eq_true htag⟩, hresolve⟩
  · rw [← helement]
    exact hkind

theorem Reached.lookupType_base (hreached : index.Reached) (hentry : index.types.get? key = some entry)
    (hacyclic : index.AcyclicAbove key) {part : Element} (hpart : part ∈ entry.element.children)
    (htag : part.tag = .extendsName) {base : TypeInfo}
    (hlookup : (index.lookupType part.name entry.headerContext).1 = some base) (hkind : base.tag = entry.element.tag) :
    index.base? entry.headerContext part = some base := by
  obtain ⟨above, hresolve, hextends, hbuild⟩ := hreached.exists_extends hentry hpart htag hlookup hkind
  rw [base?, hresolve, Option.bind_some, ← hreached.build_eq (hacyclic.base hextends), hbuild]

end TypeIndex

/-! ### Validated types -/

namespace Validator

/-- The walk over the children of a type declaration that is met at a point. -/
def bodyAt {σ : Type} (v : Validator σ) (point : Point σ) : Outcome σ :=
  v.validateAll point.element.children
    (point.session.enter
      (.type ⟨point.element, point.session.qualifiedName point.element.name, point.session.context⟩)) point.state

/-- The members in scope when the walk over a type is through with it, before they are cleared. -/
def memberTable {σ : Type} (v : Validator σ) (point : Point σ) : Table String Member :=
  (v.bodyAt point).session.scope.members

theorem outcomeAt_eq_leave {σ : Type} {v : Validator σ} {point : Point σ}
    (htype : point.element.tag.isTypeDeclaration = true) (hclean : (v.outcomeAt point).Clean) :
    (v.bodyAt point).Clean ∧ v.outcomeAt point = (v.bodyAt point).leave
      (.type ⟨point.element, point.session.qualifiedName point.element.name, point.session.context⟩) := by
  unfold outcomeAt at hclean ⊢
  rw [validate_eq, enter_eq_enterType htype] at hclean ⊢
  obtain ⟨-, hbelow, heq⟩ := hclean.follow
  rw [heq]
  unfold enterType at hbelow ⊢
  split at hbelow
  · exact absurd hbelow.fault (by simp [Ruling.below])
  · rename_i houtside
    rw [if_neg houtside]
    exact ⟨⟨hbelow.reports, hbelow.fault⟩, rfl⟩

section Index

variable {v : Validator TypeIndex} {file : Element} {index : TypeIndex} {key : TypeKey} {entry : TypeEntry}
  {point : Point TypeIndex}

theorem filled_memberTable (hresolver : v.resolver = TypeIndex.resolver) (hreached : index.Reached)
    (hentry : index.types.get? key = some entry) (hacyclic : index.AcyclicAbove key)
    (hreaches : v.resolver.Reaches index point.state) (helement : entry.element = point.element)
    (hname : entry.qualifiedName = point.session.qualifiedName point.element.name)
    (hcontext : entry.headerContext = point.session.context) (hsound : point.element.Sound)
    (hplaced : point.element.Placed) (htype : point.element.tag.isTypeDeclaration = true)
    (hclean : (v.outcomeAt point).Clean) :
    Filled ∅ (v.memberTable point)
      {member | ∃ part ∈ point.element.children, member ∈ brings (index.base? entry.headerContext) entry.opened part}
      {member | ∃ d ∈ point.element.innerTypes, member = (d.name, ⟨d, entry.qualifiedName⟩)} := by
  have hopened : (⟨point.element, point.session.qualifiedName point.element.name, point.session.context⟩ : OpenType) =
      entry.opened := by
    rw [TypeEntry.opened, helement, hname, hcontext]
  obtain ⟨hbody, -⟩ := outcomeAt_eq_leave htype hclean
  unfold memberTable bodyAt at *
  rw [hopened] at hbody ⊢
  -- the linearization stays the answer on a base, whatever has been looked up on the way to it
  have hbase : ∀ part ∈ point.element.children, ∀ met, v.resolver.Reaches point.state met → part.tag = .extendsName →
      ∀ base, (v.resolver.lookupType part.name entry.opened.headerContext met).1 = some base →
        base.tag = entry.opened.element.tag → index.base? entry.headerContext part = some base := by
    intro part hpart met hmet htag base hlookup hkind
    rw [hresolver] at hreaches hmet hlookup
    obtain ⟨hmetReached, hsame⟩ := hreached.of_reaches (hreaches.trans hmet)
    have hanswer := hmetReached.lookupType_base (hsame.types ▸ hentry) (hsame.symm.acyclicAbove hacyclic)
      (helement ▸ hpart) htag hlookup hkind
    rwa [TypeIndex.base?, hsame.resolve?_eq, hsame.linearized?_eq] at hanswer
  refine (filled_body htype hplaced hbase (Session.enter_frames _ _) hbody).congr (fun _ => Iff.rfl) fun member => ?_
  rw [← helement] at hsound ⊢
  exact (TypeIndex.mem_bringsInner_iff hsound).symm

/-- When the walk over a file of an index comes to a type with no cycle above it and finds nothing in it, its member table is what every index with the same registrations answers for the type, except that an inner type has taken over its name. So the two are the same map if and only if the index as well has each inner type under its name. -/
theorem memberTable_eq (hresolver : v.resolver = TypeIndex.resolver) (hfile : file.tag = .nedFile)
    (hsound : (ParseTree.ofElement file).isSound = true) (hknown : ∀ e ∈ file.descendants, e.tag ≠ .unknown)
    (hreached : index.Reached) {project : String} (hregisters : index.Registers project file) {session : Session}
    (hvisits : v.Visits ⟨file, session, index⟩ point) (htype : point.element.tag.isTypeDeclaration = true)
    (hclean : (v.outcomeAt point).Clean)
    (hacyclic : index.AcyclicAbove (project, point.session.qualifiedName point.element.name))
    {later : TypeIndex} (hlater : later.Reached) (hsame : later.SameRegistrations index) :
    ∃ info, (later.typeInfo (project, point.session.qualifiedName point.element.name)).1 = some info ∧
      info.element = point.element ∧
      (∀ name, (∀ d ∈ point.element.innerTypes, d.name ≠ name) → (v.memberTable point).get? name = info.member? name) ∧
      (∀ d ∈ point.element.innerTypes,
        (v.memberTable point).get? d.name = some ⟨d, point.session.qualifiedName point.element.name⟩) ∧
      ((∀ name, (v.memberTable point).get? name = info.member? name) ↔ ∀ d ∈ point.element.innerTypes,
        info.member? d.name = some ⟨d, point.session.qualifiedName point.element.name⟩) := by
  have hfileSound := ParseTree.isSound_ofElement_iff.1 hsound
  have hfilePlaced := hfileSound.placed hknown
  have hmem := hvisits.mem_descendants
  have hpointSound : point.element.Sound := fun d hd => hfileSound d (Element.mem_descendants_trans hmem hd)
  have hpointPlaced : point.element.Placed := fun d hd => hfilePlaced d (Element.mem_descendants_trans hmem hd)
  obtain ⟨entry, hdeclared, helement, hname, hcontext⟩ :=
    hvisits.exists_declaration hfile hfileSound hfilePlaced htype
  have hentry := hregisters entry hdeclared
  rw [← hname] at hacyclic ⊢
  have hfilled := filled_memberTable hresolver hreached hentry hacyclic hvisits.reaches helement hname hcontext
    hpointSound hpointPlaced htype hclean
  have hinfo : (later.typeInfo (project, entry.qualifiedName)).1 =
      some (entry.withInherited ((index.bases entry).flatMap index.linearization)) := by
    rw [TypeIndex.typeInfo_fst, hlater.build_eq (hsame.symm.acyclicAbove hacyclic), hsame.linearized?_eq,
      hacyclic.linearized?_eq hentry]
  have houter : ∀ name, (∀ d ∈ point.element.innerTypes, d.name ≠ name) → (v.memberTable point).get? name =
      (entry.withInherited ((index.bases entry).flatMap index.linearization)).member? name := by
    intro name hnot
    refine hfilled.get?_eq (entry.entries_withInherited _) (fun member => ?_) ?_
    · rw [← helement] at hpointSound ⊢
      exact TypeIndex.mem_inherited_append_iff hpointSound
    · rintro member ⟨d, hd, rfl⟩
      exact hnot d hd
  have hinner : ∀ d ∈ point.element.innerTypes,
      (v.memberTable point).get? d.name = some ⟨d, entry.qualifiedName⟩ := by
    intro d hd
    refine Table.get?_eq_some_iff.2 (hfilled.inside ?_ _ ⟨d, hd, rfl⟩)
    rintro member ⟨d, hd, rfl⟩ other ⟨d', hd', rfl⟩ hkey
    rw [hregisters.innerTypes_unique hdeclared (helement ▸ hd) (helement ▸ hd') hkey]
  refine ⟨_, hinfo, helement, houter, hinner, ?_⟩
  constructor
  · exact fun hequal d hd => (hequal d.name).symm.trans (hinner d hd)
  · intro hhas name
    by_cases hname : ∃ d ∈ point.element.innerTypes, d.name = name
    · obtain ⟨d, hd, rfl⟩ := hname
      rw [hinner d hd, hhas d hd]
    · push Not at hname
      exact houter name hname

end Index

/-! ### An inner type under the name of an inherited parameter -/

/-- A module with a parameter `x`. -/
def shadowedBase : Element :=
  let parameters : Element :=
    { Element.new .parameters with children := [⟨0, .param, .fill _ ["int", "false", "x"], [], none, {}⟩] }
  ⟨0, .compoundModule, .fill _ ["Base"], [parameters], none, {}⟩

/-- A module that extends it and has an inner type `x`. -/
def shadowingNet : Element :=
  let types : Element :=
    { Element.new .types with children := [⟨0, .simpleModule, .fill _ ["x"], [], none, {}⟩] }
  ⟨0, .compoundModule, .fill _ ["Net"], [⟨0, .extendsName, .fill _ ["Base"], [], none, {}⟩, types], none, {}⟩

def shadowFile : Element := ⟨0, .nedFile, .fill _ ["n.ned"], [shadowedBase, shadowingNet], none, {}⟩

def shadowIndex : TypeIndex := TypeIndex.empty.addFile "p" shadowFile

/-- Where the walk over the file comes to the second module. -/
def shadowingPoint : Point TypeIndex :=
  let v : Validator TypeIndex := .standard TypeIndex.resolver "p"
  let ruling := v.rulingAt ⟨shadowFile, .initial, shadowIndex⟩
  let row := v.validateAll [shadowedBase] ruling.session ruling.state
  ⟨shadowingNet, row.session, row.state⟩

theorem visits_shadowingPoint :
    (Validator.standard TypeIndex.resolver "p").Visits ⟨shadowFile, .initial, shadowIndex⟩ shadowingPoint := by
  have hchildren : shadowFile.children = [shadowedBase] ++ shadowingNet :: [] := rfl
  exact .single (.descend hchildren rfl rfl (by decide +kernel))

/-- The second module is validated without a finding, and the two tables differ on what `x` is. -/
theorem memberTable_shadowFile :
    (ParseTree.ofElement shadowFile).isSound = true ∧
      (shadowFile.fileDeclarations.map (·.qualifiedName)).Nodup ∧
      (Validator.standard TypeIndex.resolver "p").Visits ⟨shadowFile, .initial, shadowIndex⟩ shadowingPoint ∧
      ((Validator.standard TypeIndex.resolver "p").outcomeAt shadowingPoint).Clean ∧
      (((Validator.standard TypeIndex.resolver "p").memberTable shadowingPoint).get? "x").map
        (fun member => (member.element.tag, member.owner)) = some (.simpleModule, "Net") ∧
      ((shadowIndex.typeInfo ("p", "Net")).1.bind (·.member? "x")).map
        (fun member => (member.element.tag, member.owner)) = some (.param, "Base") := by
  refine ⟨by decide +kernel, by decide +kernel, visits_shadowingPoint, ⟨by decide +kernel, by decide +kernel⟩, ?_, ?_⟩
  · decide +kernel
  · decide +kernel

theorem memberTable_eq_shadowFile :
    ((Validator.standard TypeIndex.resolver "p").memberTable shadowingPoint).get? "x" =
      shadowingNet.innerTypes.head?.map (⟨·, "Net"⟩) := by
  have hclean : ((Validator.standard TypeIndex.resolver "p").outcomeAt shadowingPoint).Clean :=
    ⟨by decide +kernel, by decide +kernel⟩
  have hreached : shadowIndex.Reached := .addFile _ _ .empty
  have hacyclic : shadowIndex.Acyclic := .of_rank (fun key => if key.2 = "Net" then 1 else 0) (by decide +kernel)
  have hname : shadowingPoint.session.qualifiedName shadowingPoint.element.name = "Net" := by decide +kernel
  obtain ⟨info, -, -, -, hinner, -⟩ := memberTable_eq rfl rfl (by decide +kernel) (by decide +kernel) hreached
    (TypeIndex.registers_addNedFile (by decide +kernel)) visits_shadowingPoint rfl hclean (hacyclic.above _) hreached
    (.refl _)
  rw [hname] at hinner
  exact hinner _ (List.mem_singleton_self _)

end Validator

end NedCheck
