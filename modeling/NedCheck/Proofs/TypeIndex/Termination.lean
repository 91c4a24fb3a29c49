import NedCheck.Proofs.TypeIndex.Resolution

/-!
# Why look-ups end

Two searches of the index go on for as long as they find something to go on with. The one for a simple name goes from a type to the type around it; it ends since the name of a type is that of the type around it, a dot and its own name, and so gets shorter on the way. The one for the members of a type goes from a type to its bases; it ends since no type is worked out while it is being worked out already, and there are only so many types.

Here both are stated without a bound: `Seeks` as the steps outwards, `Builds` as a recursion that keeps the types it is working out in a set, into which a type is put on the way in and from which it is taken on the way out. What they end with is what the index answers, so its own bounds cut nothing off.
-/

namespace NedCheck

namespace TypeIndex

variable {index : TypeIndex} {project name : String}

/-! ### Enclosing types -/

/-- The search for a simple name in a type and the types around it: it ends at the first of them that has a type of the name inside, or outside of all types. -/
inductive Seeks (index : TypeIndex) (project name : String) : (type found : Option String) → Prop where
  | outside : Seeks index project name none none
  | here {type : String} : index.types.contains (project, type ++ "." ++ name) = true →
    Seeks index project name (some type) (some (type ++ "." ++ name))
  | outwards {type : String} {found : Option String} : index.types.contains (project, type ++ "." ++ name) = false →
    Seeks index project name ((index.types.get? (project, type)).bind (·.enclosing)) found →
    Seeks index project name (some type) found

theorem Seeks.unique {type found other : Option String} (h : index.Seeks project name type found)
    (hother : index.Seeks project name type other) : found = other := by
  induction h generalizing other with
  | outside =>
    cases hother
    rfl
  | here hcontains =>
    cases hother with
    | here => rfl
    | outwards hnot =>
      rw [hcontains] at hnot
      cases hnot
  | outwards hnot _ ih =>
    cases hother with
    | here hcontains =>
      rw [hcontains] at hnot
      cases hnot
    | outwards _ hrest => exact ih hrest

theorem Reached.eq_of_enclosing (hreached : index.Reached) {inner outer : String} {entry : TypeEntry}
    (hentry : index.types.get? (project, inner) = some entry) (houter : entry.enclosing = some outer) :
    inner = outer ++ "." ++ entry.name := by
  obtain ⟨calls, hsame⟩ := hreached.exists_calls
  rw [hsame.types, types_addFiles_get?] at hentry
  exact TypeIndex.eq_of_enclosing hentry houter

theorem Reached.length_lt_of_enclosing (hreached : index.Reached) {inner outer : String} {entry : TypeEntry}
    (hentry : index.types.get? (project, inner) = some entry) (houter : entry.enclosing = some outer) :
    outer.length < inner.length := by
  rw [hreached.eq_of_enclosing hentry houter, String.length_append, String.length_append]
  have hdot : ".".length = 1 := rfl
  omega

theorem Reached.seeks_outward (hreached : index.Reached) (name : String) {type : String} {bound : Nat}
    (hbound : type.length < bound) : index.Seeks project name (some type)
      (((index.outward project bound type).map fun outer => outer ++ "." ++ name).find? fun candidate =>
        index.types.contains (project, candidate)) := by
  induction bound generalizing type with
  | zero => omega
  | succ bound ih =>
    rw [outward, List.map_cons]
    cases hcontains : index.types.contains (project, type ++ "." ++ name) with
    | true =>
      rw [List.find?_cons, hcontains]
      exact .here hcontains
    | false =>
      rw [List.find?_cons, hcontains]
      refine .outwards hcontains ?_
      cases houter : (index.types.get? (project, type)).bind (·.enclosing) with
      | none => exact .outside
      | some outer =>
        obtain ⟨entry, hentry, henclosing⟩ := Option.bind_eq_some_iff.1 houter
        have hshorter := hreached.length_lt_of_enclosing hentry henclosing
        exact ih (by omega)

theorem Reached.seeks_iff (hreached : index.Reached) (project name : String) (type found : Option String) :
    index.Seeks project name type found ↔ found =
      (index.enclosedCandidates project name type).find? fun candidate => index.types.contains (project, candidate) := by
  have hseeks : index.Seeks project name type
      ((index.enclosedCandidates project name type).find? fun candidate => index.types.contains (project, candidate)) := by
    cases type with
    | none => exact .outside
    | some type => exact hreached.seeks_outward name (Nat.lt_succ_self _)
  exact ⟨fun h => h.unique hseeks, fun heq => heq ▸ hseeks⟩

/-! ### Names -/

/-- What a name stands for in a context, where it takes as many steps outwards as there are. -/
inductive Resolves (index : TypeIndex) (name : String) (context : LookupContext) : Option TypeKey → Prop where
  | unknown : index.origin? context = none → Resolves index name context ((index.owners.get? name).map (·, name))
  | dotted {origin : Origin} : index.origin? context = some origin → name.toList.contains '.' = true →
    Resolves index name context
      (if index.types.contains (origin.project, name) then some (origin.project, name) else none)
  | inside {origin : Origin} {found : String} : index.origin? context = some origin →
    name.toList.contains '.' = false → index.Seeks origin.project name origin.enclosing (some found) →
    Resolves index name context (some (origin.project, found))
  | topLevel {origin : Origin} : index.origin? context = some origin → name.toList.contains '.' = false →
    index.Seeks origin.project name origin.enclosing none →
    Resolves index name context (((index.fileCandidates origin.project name origin.file).find? fun candidate =>
      index.types.contains (origin.project, candidate)).map (origin.project, ·))

theorem resolve?_of_simple {context : LookupContext} {origin : Origin} (horigin : index.origin? context = some origin)
    (hdot : name.toList.contains '.' = false) : index.resolve? name context =
      (((index.enclosedCandidates origin.project name origin.enclosing).find? fun candidate =>
        index.types.contains (origin.project, candidate)).or
        ((index.fileCandidates origin.project name origin.file).find? fun candidate =>
          index.types.contains (origin.project, candidate))).map (origin.project, ·) := by
  rw [resolve?, horigin]
  dsimp only
  rw [candidates, if_neg (by rw [hdot]; exact Bool.false_ne_true), List.find?_append]

theorem Reached.eq_of_resolves (hreached : index.Reached) {context : LookupContext} {found : Option TypeKey}
    (h : index.Resolves name context found) : found = index.resolve? name context := by
  cases h with
  | unknown horigin => rw [resolve?, horigin]
  | dotted horigin hdot =>
    rw [resolve?, horigin]
    dsimp only
    rw [candidates, if_pos hdot, List.find?_singleton]
    split <;> rfl
  | inside horigin hdot hseeks =>
    rw [resolve?_of_simple horigin hdot, ← (hreached.seeks_iff _ _ _ _).1 hseeks]
    rfl
  | topLevel horigin hdot hseeks =>
    rw [resolve?_of_simple horigin hdot, ← (hreached.seeks_iff _ _ _ _).1 hseeks]
    rfl

theorem Reached.exists_resolves (hreached : index.Reached) (name : String) (context : LookupContext) :
    ∃ found, index.Resolves name context found := by
  cases horigin : index.origin? context with
  | none => exact ⟨_, .unknown horigin⟩
  | some origin =>
    cases hdot : name.toList.contains '.' with
    | true => exact ⟨_, .dotted horigin hdot⟩
    | false =>
      have hseeks := (hreached.seeks_iff origin.project name origin.enclosing _).2 rfl
      cases hfound : (index.enclosedCandidates origin.project name origin.enclosing).find? fun candidate =>
          index.types.contains (origin.project, candidate) with
      | none => exact ⟨_, .topLevel horigin hdot (hfound ▸ hseeks)⟩
      | some found => exact ⟨_, .inside horigin hdot (hfound ▸ hseeks)⟩

theorem Reached.resolves_iff (hreached : index.Reached) (name : String) (context : LookupContext)
    (found : Option TypeKey) : index.Resolves name context found ↔ found = index.resolve? name context := by
  obtain ⟨answer, hanswer⟩ := hreached.exists_resolves name context
  constructor
  · exact hreached.eq_of_resolves
  · intro heq
    rwa [heq, ← hreached.eq_of_resolves hanswer]

/-! ### Types -/

mutual

/-- A type is worked out to what is found, where `visiting` holds the types that are being worked out before and `after` those that are so afterwards. -/
inductive Builds (index : TypeIndex) : (visiting : List TypeKey) → TypeKey → (found : Option TypeInfo) →
    (after : List TypeKey) → Prop where
  | known {visiting : List TypeKey} {key : TypeKey} {info : TypeInfo} : index.known.get? key = some info →
    Builds index visiting key (some info) visiting
  | undeclared {visiting : List TypeKey} {key : TypeKey} : index.known.get? key = none →
    index.types.get? key = none → Builds index visiting key none visiting
  | cyclic {visiting : List TypeKey} {key : TypeKey} {entry : TypeEntry} : index.known.get? key = none →
    index.types.get? key = some entry → key ∈ visiting → Builds index visiting key none visiting
  | declared {visiting after : List TypeKey} {key : TypeKey} {entry : TypeEntry} {bases : List TypeInfo} :
    index.known.get? key = none → index.types.get? key = some entry → key ∉ visiting →
    BuildsAll index (key :: visiting) (index.baseKeys entry) bases after →
    Builds index visiting key (some (entry.withInherited
      ((bases.filter fun base => base.tag = entry.element.tag).flatMap (·.members.entries)))) (after.filter (· ≠ key))

/-- Types are worked out one after another. -/
inductive BuildsAll (index : TypeIndex) : (visiting keys : List TypeKey) → (found : List TypeInfo) →
    (after : List TypeKey) → Prop where
  | nil {visiting : List TypeKey} : BuildsAll index visiting [] [] visiting
  | cons {visiting middle after keys : List TypeKey} {key : TypeKey} {found : Option TypeInfo}
    {others : List TypeInfo} : Builds index visiting key found middle → BuildsAll index middle keys others after →
    BuildsAll index visiting (key :: keys) (found.toList ++ others) after

end

mutual

/-- A type that is taken out of the set on the way out was not in it on the way in. -/
theorem Builds.after_eq {visiting after : List TypeKey} {key : TypeKey} {found : Option TypeInfo} :
    index.Builds visiting key found after → after = visiting
  | .known _ => rfl
  | .undeclared _ _ => rfl
  | .cyclic _ _ _ => rfl
  | .declared _ _ hnew hbases => by
    rw [BuildsAll.after_eq hbases, List.filter_cons_of_neg (by simp), List.filter_eq_self]
    intro other hother
    exact decide_eq_true fun heq => hnew (heq ▸ hother)

theorem BuildsAll.after_eq {visiting after keys : List TypeKey} {found : List TypeInfo} :
    index.BuildsAll visiting keys found after → after = visiting
  | .nil => rfl
  | .cons hfirst hrest => (BuildsAll.after_eq hrest).trans (Builds.after_eq hfirst)

end

mutual

theorem Builds.unique {visiting after otherAfter : List TypeKey} {key : TypeKey} {found other : Option TypeInfo} :
    index.Builds visiting key found after → index.Builds visiting key other otherAfter → found = other
  | .known hknown, h => by
    cases h with
    | known hother => exact hknown.symm.trans hother
    | undeclared hunknown | cyclic hunknown | declared hunknown => cases hknown.symm.trans hunknown
  | .undeclared hunknown hentry, h => by
    cases h with
    | known hknown => cases hknown.symm.trans hunknown
    | undeclared => rfl
    | cyclic => rfl
    | declared _ hother => cases hother.symm.trans hentry
  | .cyclic hunknown _ hmem, h => by
    cases h with
    | known hknown => cases hknown.symm.trans hunknown
    | undeclared => rfl
    | cyclic => rfl
    | declared _ _ hnew => exact absurd hmem hnew
  | .declared hunknown hentry hnew hbases, h => by
    cases h with
    | known hknown => cases hknown.symm.trans hunknown
    | undeclared _ hnone => cases hentry.symm.trans hnone
    | cyclic _ _ hmem => exact absurd hmem hnew
    | declared _ hother _ hotherBases =>
      obtain rfl := Option.some.inj (hentry.symm.trans hother)
      rw [BuildsAll.unique hbases hotherBases]

theorem BuildsAll.unique {visiting after otherAfter keys : List TypeKey} {found other : List TypeInfo} :
    index.BuildsAll visiting keys found after → index.BuildsAll visiting keys other otherAfter → found = other
  | .nil, .nil => rfl
  | .cons hfirst hrest, .cons hotherFirst hotherRest => by
    have hmiddle := hfirst.after_eq.trans hotherFirst.after_eq.symm
    rw [Builds.unique hfirst hotherFirst, BuildsAll.unique hrest (hmiddle ▸ hotherRest)]

end

theorem buildsAll_filterMap {visiting keys : List TypeKey} {build : TypeKey → Option TypeInfo}
    (h : ∀ key, index.Builds visiting key (build key) visiting) :
    index.BuildsAll visiting keys (keys.filterMap build) visiting := by
  induction keys with
  | nil => exact .nil
  | cons key rest ih =>
    have hfound : (key :: rest).filterMap build = (build key).toList ++ rest.filterMap build := by
      rw [List.filterMap_cons]
      cases build key <;> rfl
    rw [hfound]
    exact .cons (h key) ih

/-- Types that are worked out are different and declared, so there is a depth that suffices for all of them. -/
theorem builds_build {visiting : List TypeKey} {depth : Nat} (hvisiting : index.IsPath visiting)
    (hdepth : index.size < visiting.length + depth) (key : TypeKey) :
    index.Builds visiting key (index.build depth visiting key) visiting := by
  induction depth generalizing visiting key with
  | zero => exact absurd rfl (hvisiting.depth_ne_zero hdepth)
  | succ depth ih =>
    cases hknown : index.known.get? key with
    | some info =>
      rw [build_of_known hknown]
      exact .known hknown
    | none =>
      cases hentry : index.types.get? key with
      | none =>
        rw [build_eq_none hknown hentry]
        exact .undeclared hknown hentry
      | some entry =>
        by_cases hmem : key ∈ visiting
        · rw [build_of_mem hknown hmem]
          exact .cyclic hknown hentry hmem
        · have hbases : index.BuildsAll (key :: visiting) (index.baseKeys entry)
              ((index.baseKeys entry).filterMap (index.build depth (key :: visiting))) (key :: visiting) :=
            buildsAll_filterMap (ih (hvisiting.cons hentry hmem) (by rw [List.length_cons]; omega))
          have hdeclared := Builds.declared hknown hentry hmem hbases
          rw [hdeclared.after_eq] at hdeclared
          rw [build_succ hknown hentry hmem]
          exact hdeclared

theorem builds_iff (index : TypeIndex) (key : TypeKey) (found : Option TypeInfo) (after : List TypeKey) :
    index.Builds [] key found after ↔ found = (index.typeInfo key).1 ∧ after = [] := by
  have hends : index.Builds [] key (index.typeInfo key).1 [] := by
    rw [typeInfo_fst]
    exact builds_build (.nil index) (by rw [List.length_nil]; omega) key
  constructor
  · exact fun h => ⟨h.unique hends, h.after_eq⟩
  · rintro ⟨rfl, rfl⟩
    exact hends

/-! ### Calls -/

/-- A type that is asked for while another is worked out: `path` holds the types on whose account it is, the innermost first, and `visiting` those that are in the set by then. -/
inductive Asked (index : TypeIndex) (start : TypeKey) : (path visiting : List TypeKey) → TypeKey → Prop where
  | start : Asked index start [] [] start
  | base {path visiting middle before after : List TypeKey} {key base : TypeKey} {entry : TypeEntry}
    {found : List TypeInfo} : Asked index start path visiting key → index.known.get? key = none →
    index.types.get? key = some entry → key ∉ visiting → index.baseKeys entry = before ++ base :: after →
    BuildsAll index (key :: visiting) before found middle → Asked index start (key :: path) middle base

theorem Asked.eq_and_isPath {start key : TypeKey} {path visiting : List TypeKey}
    (h : index.Asked start path visiting key) : visiting = path ∧ index.IsPath path := by
  induction h with
  | start => exact ⟨rfl, .nil index⟩
  | base _ _ hentry hnew _ hbefore ih =>
    obtain ⟨rfl, hpath⟩ := ih
    exact ⟨hbefore.after_eq, hpath.cons hentry hnew⟩

/-- However an index came about, each of its look-ups ends, whatever cycles there are among the types it looks at. The search for a name is the one without a bound, on whose way outwards each name is the next one with a dot and the own name of the type, so it gets shorter. A type is worked out by the recursion without a bound, after which nothing is left in the set of types being worked out. On its way, the set has exactly the types on whose account the next one is asked for. These are different declared types, so there is at most one call more than there are types. -/
theorem Reached.lookups_end (hreached : index.Reached) :
    (∀ name context found, index.Resolves name context found ↔ found = index.resolve? name context) ∧
    (∀ project inner entry outer, index.types.get? (project, inner) = some entry → entry.enclosing = some outer →
      inner = outer ++ "." ++ entry.name ∧ outer.length < inner.length) ∧
    (∀ key found after, index.Builds [] key found after ↔ found = (index.typeInfo key).1 ∧ after = []) ∧
    (∀ start path visiting key, index.Asked start path visiting key →
      visiting = path ∧ path.Nodup ∧ path ⊆ index.types.keys ∧ (key :: path).length ≤ index.size + 1) := by
  refine ⟨hreached.resolves_iff, ?_, index.builds_iff, ?_⟩
  · intro project inner entry outer hentry houter
    exact ⟨hreached.eq_of_enclosing hentry houter, hreached.length_lt_of_enclosing hentry houter⟩
  · intro start path visiting key hasked
    obtain ⟨hvisiting, hpath⟩ := hasked.eq_and_isPath
    exact ⟨hvisiting, hpath.nodup, hpath.declared, Nat.succ_le_succ hpath.length_le_size⟩

/-- Of two modules that extend each other, the first is asked for again on account of both, which is as deep as two types can get. -/
theorem lookups_end_cycle :
    let index := TypeIndex.empty.addFile "p" Reached.cycleFile
    index.Resolves "A" (.file "a.ned") (some ("p", "A")) ∧
      (∃ info, index.Builds [] ("p", "A") (some info) [] ∧ info.members.keys = ["y", "x"]) ∧
      index.Asked ("p", "A") [("p", "B"), ("p", "A")] [("p", "B"), ("p", "A")] ("p", "A") ∧
      [("p", "B"), ("p", "A")].Nodup ∧ index.size = 2 := by
  intro index
  have hreached : index.Reached := .addFile "p" _ .empty
  obtain ⟨hresolves, -, hbuilds, hasked⟩ := hreached.lookups_end
  have hfirst : (index.types.get? ("p", "A")).map index.baseKeys = some [("p", "B")] := by decide +kernel
  have hsecond : (index.types.get? ("p", "B")).map index.baseKeys = some [("p", "A")] := by decide +kernel
  obtain ⟨first, hfirst, hfirstBases⟩ := Option.map_eq_some_iff.1 hfirst
  obtain ⟨second, hsecond, hsecondBases⟩ := Option.map_eq_some_iff.1 hsecond
  have hstart : index.Asked ("p", "A") [("p", "A")] [("p", "A")] ("p", "B") :=
    .base .start rfl hfirst List.not_mem_nil hfirstBases .nil
  have hagain : index.Asked ("p", "A") [("p", "B"), ("p", "A")] [("p", "B"), ("p", "A")] ("p", "A") :=
    .base hstart rfl hsecond (by decide) hsecondBases .nil
  have hkeys : (index.typeInfo ("p", "A")).1.map (fun info => info.members.keys) = some ["y", "x"] := by decide +kernel
  obtain ⟨info, hinfo, hkeys⟩ := Option.map_eq_some_iff.1 hkeys
  refine ⟨(hresolves _ _ _).2 (by decide +kernel), ⟨info, (hbuilds _ _ _).2 ⟨hinfo.symm, rfl⟩, hkeys⟩, hagain,
    (hasked _ _ _ _ hagain).2.1, by decide +kernel⟩

end TypeIndex

end NedCheck
