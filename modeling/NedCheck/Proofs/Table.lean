import Mathlib.Data.List.Nodup
import Mathlib.Tactic.SplitIfs
import NedCheck.Table

/-!
# First entries

Filling a table from a list keeps of all entries with one key the first. `firsts` is that list, and a table that is filled has its own entries followed by the first ones under new keys. What a table does with keys it does whatever the values are: writing commutes with `mapValues`.
-/

namespace NedCheck

variable {κ ν : Type} [DecidableEq κ]

/-- The first entry of each key, in order. -/
def firsts : List (κ × ν) → List (κ × ν)
  | [] => []
  | entry :: rest => entry :: (firsts rest).filter fun other => other.1 ≠ entry.1

theorem firsts_subset (entries : List (κ × ν)) : firsts entries ⊆ entries := by
  induction entries with
  | nil => exact List.Subset.refl _
  | cons entry rest ih =>
    rw [firsts]
    exact List.cons_subset_cons _ fun other hother => ih (List.mem_filter.1 hother).1

theorem nodup_keys_firsts (entries : List (κ × ν)) : ((firsts entries).map Prod.fst).Nodup := by
  induction entries with
  | nil => exact List.nodup_nil
  | cons entry rest ih =>
    rw [firsts, List.map_cons, List.nodup_cons]
    refine ⟨?_, ih.sublist (List.filter_sublist.map _)⟩
    intro hmem
    obtain ⟨other, hother, heq⟩ := List.mem_map.1 hmem
    exact of_decide_eq_true (List.mem_filter.1 hother).2 heq

theorem mem_keys_firsts {key : κ} {entries : List (κ × ν)} :
    key ∈ (firsts entries).map Prod.fst ↔ key ∈ entries.map Prod.fst := by
  induction entries with
  | nil => exact Iff.rfl
  | cons entry rest ih =>
    rw [firsts, List.map_cons, List.map_cons, List.mem_cons, List.mem_cons, ← ih]
    by_cases heq : key = entry.1
    · simp [heq]
    · simp [heq]

theorem firsts_eq_self {entries : List (κ × ν)} (h : (entries.map Prod.fst).Nodup) : firsts entries = entries := by
  induction entries with
  | nil => rfl
  | cons entry rest ih =>
    rw [List.map_cons, List.nodup_cons] at h
    rw [firsts, ih h.2, List.filter_eq_self.2]
    intro other hother
    exact decide_eq_true fun heq => h.1 (heq ▸ List.mem_map_of_mem hother)

namespace Table

theorem putEntry_of_notMem {key : κ} {entries : List (κ × ν)} (h : key ∉ entries.map Prod.fst) (value : ν) :
    putEntry key value entries = entries ++ [(key, value)] := by
  induction entries with
  | nil => rfl
  | cons entry rest ih =>
    rw [List.map_cons, List.mem_cons, not_or] at h
    rw [putEntry, if_neg (Ne.symm h.1), ih h.2, List.cons_append]

theorem entries_insert_of_notMem {table : Table κ ν} {key : κ} (h : key ∉ table.keys) (value : ν) :
    (table.insert key value).entries = table.entries ++ [(key, value)] :=
  putEntry_of_notMem h value

theorem mem_entries_insert {table : Table κ ν} {key : κ} {value : ν} {entry : κ × ν} :
    entry ∈ (table.insert key value).entries ↔
      entry = (key, value) ∨ key ≠ entry.1 ∧ entry ∈ table.entries := by
  obtain ⟨other, found⟩ := entry
  rw [← get?_eq_some_iff, get?_insert, ← get?_eq_some_iff]
  by_cases heq : key = other
  · simp [heq, eq_comm]
  · simp [heq, Ne.symm heq]

/-- A table filled from a list has its own entries and then the first ones under new keys. -/
theorem entries_insertAll (table : Table κ ν) (entries : List (κ × ν)) :
    (table.insertAll entries).entries =
      table.entries ++ (firsts entries).filter fun entry => entry.1 ∉ table.keys := by
  induction entries generalizing table with
  | nil => simp [insertAll, firsts]
  | cons entry rest ih =>
    have hstep : table.insertAll (entry :: rest) = (table.insertIfNew entry.1 entry.2).insertAll rest := rfl
    rw [hstep, firsts]
    by_cases hmem : entry.1 ∈ table.keys
    · have hkeep : table.insertIfNew entry.1 entry.2 = table := if_pos (contains_iff.2 hmem)
      rw [hkeep, ih, List.filter_cons_of_neg (by simpa using hmem), List.filter_filter]
      congr 1
      apply List.filter_congr
      intro other _
      by_cases heq : other.1 = entry.1 <;> simp [heq, hmem]
    · have hnew : table.insertIfNew entry.1 entry.2 = table.insert entry.1 entry.2 :=
        if_neg fun hcontains => hmem (contains_iff.1 hcontains)
      rw [hnew, ih, entries_insert_of_notMem hmem, keys_insert, if_neg hmem,
        List.filter_cons_of_pos (by simpa using hmem), List.filter_filter, List.append_assoc,
        List.singleton_append]
      congr 2
      apply List.filter_congr
      intro other _
      simp [not_or]

theorem entries_insertAll_empty (entries : List (κ × ν)) :
    (Table.insertAll ∅ entries).entries = firsts entries := by
  rw [entries_insertAll, entries_empty, List.nil_append, List.filter_eq_self]
  simp [keys]

theorem insertAll_append (table : Table κ ν) (left right : List (κ × ν)) :
    (table.insertAll left).insertAll right = table.insertAll (left ++ right) := by
  rw [insertAll, insertAll, insertAll, List.foldl_append]

theorem get?_insertAll (table : Table κ ν) (entries : List (κ × ν)) (key : κ) :
    (table.insertAll entries).get? key =
      (table.get? key).or ((entries.find? fun entry => entry.1 = key).map Prod.snd) := by
  induction entries generalizing table with
  | nil => exact Option.or_none.symm
  | cons entry rest ih =>
    have hstep : table.insertAll (entry :: rest) = (table.insertIfNew entry.1 entry.2).insertAll rest := rfl
    rw [hstep, ih, insertIfNew]
    by_cases hkey : entry.1 = key
    · subst hkey
      rw [List.find?_cons_of_pos (by simp)]
      split_ifs with hold
      · obtain ⟨value, hvalue⟩ := Option.isSome_iff_exists.1 hold
        rw [hvalue]
        rfl
      · rw [get?_insert, if_pos rfl, Option.not_isSome_iff_eq_none.1 hold]
        rfl
    · rw [List.find?_cons_of_neg (by simpa using hkey)]
      split_ifs
      · rfl
      · rw [get?_insert, if_neg hkey]

/-! ### Mapping the values -/

variable {ω : Type} (f : ν → ω)

/-- The table with a function applied to every value. -/
def mapValues (table : Table κ ν) : Table κ ω where
  entries := table.entries.map fun entry => (entry.1, f entry.2)
  nodup := by
    rw [List.map_map]
    exact table.nodup

omit [DecidableEq κ] in
@[simp] theorem keys_mapValues (table : Table κ ν) : (table.mapValues f).keys = table.keys := by
  simp [keys, mapValues]

omit [DecidableEq κ] in
@[simp] theorem size_mapValues (table : Table κ ν) : (table.mapValues f).size = table.size :=
  List.length_map _

@[simp] theorem get?_mapValues (table : Table κ ν) (key : κ) :
    (table.mapValues f).get? key = (table.get? key).map f := by
  simp [get?, mapValues, Function.comp_def]

@[simp] theorem contains_mapValues (table : Table κ ν) (key : κ) :
    (table.mapValues f).contains key = table.contains key := by
  simp [contains]

theorem mapValues_insert (table : Table κ ν) (key : κ) (value : ν) :
    (table.insert key value).mapValues f = (table.mapValues f).insert key (f value) := by
  have hput (entries : List (κ × ν)) : (putEntry key value entries).map (fun entry => (entry.1, f entry.2)) =
      putEntry key (f value) (entries.map fun entry => (entry.1, f entry.2)) := by
    induction entries with
    | nil => rfl
    | cons entry rest ih =>
      rw [putEntry, List.map_cons, putEntry]
      split_ifs
      · rfl
      · rw [List.map_cons, ih]
  exact Table.ext (hput table.entries)

theorem mapValues_insertAll (table : Table κ ν) (entries : List (κ × ν)) :
    (table.insertAll entries).mapValues f =
      (table.mapValues f).insertAll (entries.map fun entry => (entry.1, f entry.2)) := by
  induction entries generalizing table with
  | nil => rfl
  | cons entry rest ih =>
    have hnew : (table.insertIfNew entry.1 entry.2).mapValues f =
        (table.mapValues f).insertIfNew entry.1 (f entry.2) := by
      rw [insertIfNew, insertIfNew, contains_mapValues]
      split_ifs
      · rfl
      · exact mapValues_insert f table entry.1 entry.2
    have hstep := ih (table.insertIfNew entry.1 entry.2)
    rwa [hnew] at hstep

end Table

end NedCheck
