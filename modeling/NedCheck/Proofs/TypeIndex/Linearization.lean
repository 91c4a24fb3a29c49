import Mathlib.Data.Finset.Card
import Mathlib.Logic.Relation
import NedCheck.Proofs.Table
import NedCheck.Proofs.TypeIndex.Registrations

/-!
# The members of a type

What members a type has can be said without the index working anything out: those of its bases, base by base, and then its own, of all members with one name the first. `linearization` is this recursion. It needs no guard for a type that has no cycle above it, since then the number of types above it gets smaller with every base.

On the way up from such a type the guard against cycles never strikes at bases of the same kind. A base of another kind may well run into it, but then it is left out by its kind as well. So a type is worked out to its linearization, and as what is remembered has been worked out from the same registrations, it makes no difference to any answer.
-/

namespace NedCheck

namespace TypeIndex

variable {index : TypeIndex}

/-! ### Bases -/

/-- The types that the bases of a declaration stand for, of whatever kind. -/
def baseKeys (index : TypeIndex) (entry : TypeEntry) : List TypeKey :=
  (entry.element.childrenWithTag .extendsName).filterMap fun base => index.resolve? base.name entry.headerContext

/-- Whether a type is of the same kind as a declaration. -/
def isSameKind (index : TypeIndex) (entry : TypeEntry) (key : TypeKey) : Bool :=
  (index.types.get? key).any fun base => base.element.tag = entry.element.tag

theorem isSameKind_iff {entry : TypeEntry} {key : TypeKey} :
    index.isSameKind entry key = true ↔
      ∃ base, index.types.get? key = some base ∧ base.element.tag = entry.element.tag := by
  unfold isSameKind
  cases index.types.get? key <;> simp

/-- The bases a declaration has members from, in order. -/
def bases (index : TypeIndex) (entry : TypeEntry) : List TypeKey :=
  (index.baseKeys entry).filter (index.isSameKind entry)

theorem exists_of_mem_bases {entry : TypeEntry} {base : TypeKey} (h : base ∈ index.bases entry) :
    ∃ declared, index.types.get? base = some declared ∧ declared.element.tag = entry.element.tag :=
  isSameKind_iff.1 (List.mem_filter.1 h).2

/-- The type has the other one as a base. -/
def Extends (index : TypeIndex) (key base : TypeKey) : Prop :=
  ∃ entry, index.types.get? key = some entry ∧ base ∈ index.bases entry

theorem SameRegistrations.bases_eq {left right : TypeIndex} (h : SameRegistrations left right) :
    left.bases = right.bases := by
  funext entry
  have hkeys : left.baseKeys entry = right.baseKeys entry := by
    unfold baseKeys
    congr 1
    funext base
    exact h.resolve?_eq base.name entry.headerContext
  have hkind : left.isSameKind entry = right.isSameKind entry := by
    funext key
    rw [isSameKind, isSameKind, h.types]
  rw [bases, bases, hkeys, hkind]

theorem SameRegistrations.extends_eq {left right : TypeIndex} (h : SameRegistrations left right) :
    left.Extends = right.Extends := by
  funext key base
  rw [Extends, Extends, h.types, h.bases_eq]

/-- No type extends itself, directly or through others. -/
def Acyclic (index : TypeIndex) : Prop := ∀ key, ¬ Relation.TransGen index.Extends key key

/-- Neither the type nor any type above it extends itself, directly or through others. -/
def AcyclicAbove (index : TypeIndex) (key : TypeKey) : Prop :=
  ∀ above, Relation.ReflTransGen index.Extends key above → ¬ Relation.TransGen index.Extends above above

theorem Acyclic.above (h : index.Acyclic) (key : TypeKey) : index.AcyclicAbove key := fun above _ => h above

theorem AcyclicAbove.base {key base : TypeKey} (h : index.AcyclicAbove key) (hextends : index.Extends key base) :
    index.AcyclicAbove base :=
  fun above habove => h above (.head hextends habove)

theorem AcyclicAbove.not_self {key : TypeKey} (h : index.AcyclicAbove key) : ¬ Relation.TransGen index.Extends key key :=
  h key .refl

/-- Numbers that fall with every base rule cycles out. -/
theorem Acyclic.of_rank (rank : TypeKey → Nat)
    (h : ∀ declared ∈ index.types.entries, ∀ base ∈ index.bases declared.2, rank base < rank declared.1) :
    index.Acyclic := by
  have hfalls : ∀ {key above}, Relation.TransGen index.Extends key above → rank above < rank key := by
    intro key above hextends
    induction hextends with
    | single hstep =>
      obtain ⟨entry, hentry, hbase⟩ := hstep
      exact h _ (Table.get?_eq_some_iff.1 hentry) _ hbase
    | tail _ hstep ih =>
      obtain ⟨entry, hentry, hbase⟩ := hstep
      exact Nat.lt_trans (h _ (Table.get?_eq_some_iff.1 hentry) _ hbase) ih
  exact fun key hcycle => Nat.lt_irrefl _ (hfalls hcycle)

/-! ### Heights -/

open Classical in
/-- The number of types above a type. -/
noncomputable def height (index : TypeIndex) (key : TypeKey) : Nat :=
  (index.types.keys.toFinset.filter fun above => Relation.TransGen index.Extends key above).card

theorem mem_keys_of_get? {key : TypeKey} {entry : TypeEntry} (h : index.types.get? key = some entry) :
    key ∈ index.types.keys := by
  rw [← Table.contains_iff, Table.contains, h, Option.isSome_some]

theorem Extends.mem_keys {key base : TypeKey} (h : index.Extends key base) : base ∈ index.types.keys := by
  obtain ⟨entry, -, hbase⟩ := h
  obtain ⟨found, hfound, -⟩ := exists_of_mem_bases hbase
  exact mem_keys_of_get? hfound

theorem height_le_size (key : TypeKey) : index.height key ≤ index.size := by
  classical
  refine Nat.le_trans (Finset.card_filter_le _ _) (Nat.le_trans (List.toFinset_card_le _) ?_)
  rw [Table.keys, List.length_map]
  exact Nat.le_refl _

namespace AcyclicAbove

theorem height_lt_size {key : TypeKey} (hacyclic : index.AcyclicAbove key) (h : key ∈ index.types.keys) :
    index.height key < index.size := by
  classical
  have hlt : index.height key < index.types.keys.toFinset.card := by
    apply Finset.card_lt_card
    rw [Finset.filter_ssubset]
    exact ⟨key, List.mem_toFinset.2 h, hacyclic.not_self⟩
  refine Nat.lt_of_lt_of_le hlt (Nat.le_trans (List.toFinset_card_le _) ?_)
  rw [Table.keys, List.length_map]
  exact Nat.le_refl _

theorem height_lt {key base : TypeKey} (hacyclic : index.AcyclicAbove key) (h : index.Extends key base) :
    index.height base < index.height key := by
  classical
  apply Finset.card_lt_card
  refine ⟨?_, ?_⟩
  · intro above habove
    obtain ⟨hmem, hextends⟩ := Finset.mem_filter.1 habove
    exact Finset.mem_filter.2 ⟨hmem, .head h hextends⟩
  · intro hsubset
    have hbase := hsubset (Finset.mem_filter.2 ⟨List.mem_toFinset.2 h.mem_keys, .single h⟩)
    exact (hacyclic.base h).not_self (Finset.mem_filter.1 hbase).2

end AcyclicAbove

/-! ### The linearization -/

/-- The members of a type with those of its bases, going up at most `depth` bases. -/
def linearizationTo (index : TypeIndex) : Nat → TypeKey → List (String × Member)
  | 0, _ => []
  | depth + 1, key =>
    match index.types.get? key with
    | none => []
    | some entry => firsts ((index.bases entry).flatMap (linearizationTo index depth) ++ entry.ownMembers)

/-- The members of a type in order, each under its name. Without cycles no type has as many types above it as there are types. -/
def linearization (index : TypeIndex) (key : TypeKey) : List (String × Member) :=
  index.linearizationTo index.size key

theorem nodup_keys_linearizationTo (depth : Nat) (key : TypeKey) :
    ((index.linearizationTo depth key).map Prod.fst).Nodup := by
  cases depth with
  | zero => exact List.nodup_nil
  | succ depth =>
    rw [linearizationTo]
    split
    · exact List.nodup_nil
    · exact nodup_keys_firsts _

theorem exists_of_mem_linearizationTo {depth : Nat} {key : TypeKey} {member : String × Member}
    (h : member ∈ index.linearizationTo depth key) :
    ∃ declaring entry, Relation.ReflTransGen index.Extends key declaring ∧
      index.types.get? declaring = some entry ∧ member ∈ entry.ownMembers := by
  induction depth generalizing key with
  | zero => exact absurd h List.not_mem_nil
  | succ depth ih =>
    rw [linearizationTo] at h
    split at h
    · exact absurd h List.not_mem_nil
    · rename_i entry hentry
      rcases List.mem_append.1 (firsts_subset _ h) with hinherited | hown
      · obtain ⟨base, hbase, hmember⟩ := List.mem_flatMap.1 hinherited
        obtain ⟨declaring, declared, habove, hdeclared⟩ := ih hmember
        exact ⟨declaring, declared, .head ⟨entry, hentry, hbase⟩ habove, hdeclared⟩
      · exact ⟨key, entry, .refl, hentry, hown⟩

theorem AcyclicAbove.linearizationTo_eq {left right : Nat} {key : TypeKey} (hacyclic : index.AcyclicAbove key)
    (hleft : index.height key < left) (hright : index.height key < right) :
    index.linearizationTo left key = index.linearizationTo right key := by
  induction left generalizing right key with
  | zero => omega
  | succ left ih =>
    obtain ⟨right, rfl⟩ := Nat.exists_eq_succ_of_ne_zero (Nat.ne_zero_of_lt hright)
    rw [linearizationTo, linearizationTo]
    cases hentry : index.types.get? key with
    | none => rfl
    | some entry =>
      have hbases : (index.bases entry).flatMap (index.linearizationTo left) =
          (index.bases entry).flatMap (index.linearizationTo right) := by
        apply List.flatMap_congr
        intro base hbase
        have hextends : index.Extends key base := ⟨entry, hentry, hbase⟩
        have hlt := hacyclic.height_lt hextends
        exact ih (hacyclic.base hextends) (by omega) (by omega)
      dsimp only
      rw [hbases]

/-- The recursion that makes out the linearization. -/
theorem AcyclicAbove.linearization_eq {key : TypeKey} {entry : TypeEntry} (hacyclic : index.AcyclicAbove key)
    (hentry : index.types.get? key = some entry) :
    index.linearization key = firsts ((index.bases entry).flatMap index.linearization ++ entry.ownMembers) := by
  have hsize := hacyclic.height_lt_size (mem_keys_of_get? hentry)
  obtain ⟨depth, hdepth⟩ := Nat.exists_eq_succ_of_ne_zero (Nat.ne_zero_of_lt hsize)
  have hbases : (index.bases entry).flatMap (index.linearizationTo depth) =
      (index.bases entry).flatMap index.linearization := by
    apply List.flatMap_congr
    intro base hbase
    have hextends : index.Extends key base := ⟨entry, hentry, hbase⟩
    have hlt := hacyclic.height_lt hextends
    exact (hacyclic.base hextends).linearizationTo_eq (by omega) (by omega)
  rw [linearization, hdepth, linearizationTo, hentry]
  dsimp only
  rw [hbases]

end TypeIndex

end NedCheck
