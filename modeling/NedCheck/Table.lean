/-!
# Ordered tables

A finite map that remembers the order in which its keys came in. Writing a key that is there keeps its place; a new key goes to the end. No key occurs twice, so a table is determined by its entries and every look-up has one answer.
-/

namespace NedCheck

/-! ### Finding by a key -/

section Find

variable {α κ : Type} [DecidableEq κ] {values : List α} {keyOf : α → κ} {key : κ} {value : α}

/-- Where no two values have the same key, the value with a key is found. -/
theorem find?_eq_some_iff_of_nodup (hnodup : (values.map keyOf).Nodup) :
    (values.find? fun other => keyOf other = key) = some value ↔ value ∈ values ∧ keyOf value = key := by
  induction values with
  | nil => simp
  | cons head tail ih =>
    rw [List.map_cons, List.nodup_cons] at hnodup
    by_cases hhead : keyOf head = key
    · have htail : value ∈ tail → keyOf value ≠ key := by
        rintro hmem rfl
        exact hnodup.1 (hhead ▸ List.mem_map_of_mem hmem)
      rw [List.find?_cons_of_pos (by simpa using hhead), Option.some.injEq, List.mem_cons]
      constructor
      · rintro rfl
        exact ⟨.inl rfl, hhead⟩
      · rintro ⟨rfl | hmem, hkey⟩
        · rfl
        · exact absurd hkey (htail hmem)
    · rw [List.find?_cons_of_neg (by simpa using hhead), ih hnodup.2, List.mem_cons]
      constructor
      · exact fun h => ⟨.inr h.1, h.2⟩
      · rintro ⟨rfl | hmem, hkey⟩
        · exact absurd hkey hhead
        · exact ⟨hmem, hkey⟩

/-- Among all values there are, the one with a key is found. -/
theorem find?_eq_some_iff_of_forall_mem (hnodup : (values.map keyOf).Nodup) (hall : ∀ value, value ∈ values) :
    (values.find? fun other => keyOf other = key) = some value ↔ keyOf value = key := by
  rw [find?_eq_some_iff_of_nodup hnodup, and_iff_right (hall value)]

end Find

structure Table (κ ν : Type) where
  entries : List (κ × ν)
  nodup : (entries.map Prod.fst).Nodup

namespace Table

variable {κ ν : Type}

def keys (table : Table κ ν) : List κ := table.entries.map Prod.fst

def values (table : Table κ ν) : List ν := table.entries.map Prod.snd

def size (table : Table κ ν) : Nat := table.entries.length

def isEmpty (table : Table κ ν) : Bool := table.entries.isEmpty

def empty : Table κ ν := ⟨[], List.Pairwise.nil⟩

instance : Inhabited (Table κ ν) := ⟨empty⟩

instance : EmptyCollection (Table κ ν) := ⟨empty⟩

@[ext] theorem ext {left right : Table κ ν} (h : left.entries = right.entries) : left = right := by
  cases left
  cases right
  simpa using h

@[simp] theorem entries_empty : (∅ : Table κ ν).entries = [] := rfl

variable [DecidableEq κ]

def get? (table : Table κ ν) (key : κ) : Option ν :=
  (table.entries.find? fun entry => entry.1 = key).map Prod.snd

def contains (table : Table κ ν) (key : κ) : Bool := (table.get? key).isSome

theorem contains_iff {table : Table κ ν} {key : κ} : table.contains key = true ↔ key ∈ table.keys := by
  simp [contains, get?, keys]

theorem get?_eq_some_iff {table : Table κ ν} {key : κ} {value : ν} :
    table.get? key = some value ↔ (key, value) ∈ table.entries := by
  rw [get?, Option.map_eq_some_iff]
  simp only [find?_eq_some_iff_of_nodup table.nodup]
  constructor
  · rintro ⟨entry, ⟨hentry, rfl⟩, rfl⟩
    exact hentry
  · exact fun hentry => ⟨(key, value), ⟨hentry, rfl⟩, rfl⟩

theorem get?_eq_none_iff {table : Table κ ν} {key : κ} : table.get? key = none ↔ key ∉ table.keys := by
  rw [← contains_iff, contains]
  simp

/-! ### Writing -/

/-- The entries after writing a key. -/
def putEntry (key : κ) (value : ν) : List (κ × ν) → List (κ × ν)
  | [] => [(key, value)]
  | entry :: rest => if entry.1 = key then (key, value) :: rest else entry :: putEntry key value rest

theorem keys_putEntry (key : κ) (value : ν) (entries : List (κ × ν)) :
    (putEntry key value entries).map Prod.fst =
      if key ∈ entries.map Prod.fst then entries.map Prod.fst else entries.map Prod.fst ++ [key] := by
  induction entries with
  | nil => rfl
  | cons entry rest ih =>
    by_cases h : entry.1 = key
    · simp [putEntry, h]
    · simp only [putEntry, h, if_false, List.map_cons, ih, List.mem_cons, Ne.symm h, false_or,
        List.cons_append]
      split <;> rfl

/-- The table with `value` under `key`. -/
def insert (table : Table κ ν) (key : κ) (value : ν) : Table κ ν where
  entries := putEntry key value table.entries
  nodup := by
    rw [keys_putEntry]
    split
    · exact table.nodup
    · rename_i h
      refine List.nodup_append.2 ⟨table.nodup, by simp, ?_⟩
      rintro a ha b hb rfl
      exact h (List.mem_singleton.1 hb ▸ ha)

/-- The table with `value` under `key` unless the key is taken. -/
def insertIfNew (table : Table κ ν) (key : κ) (value : ν) : Table κ ν :=
  if table.contains key then table else table.insert key value

/-- The table followed by those entries whose keys are new to it, the first of each key. -/
def insertAll (table : Table κ ν) (entries : List (κ × ν)) : Table κ ν :=
  entries.foldl (fun table entry => table.insertIfNew entry.1 entry.2) table

theorem keys_insert (table : Table κ ν) (key : κ) (value : ν) :
    (table.insert key value).keys = if key ∈ table.keys then table.keys else table.keys ++ [key] :=
  keys_putEntry key value table.entries

theorem get?_insert (table : Table κ ν) (key other : κ) (value : ν) :
    (table.insert key value).get? other = if key = other then some value else table.get? other := by
  have entries : ∀ entries : List (κ × ν),
      ((putEntry key value entries).find? fun entry => entry.1 = other).map Prod.snd =
        if key = other then some value else (entries.find? fun entry => entry.1 = other).map Prod.snd := by
    intro entries
    induction entries with
    | nil => by_cases h : key = other <;> simp [putEntry, h]
    | cons entry rest ih =>
      by_cases hk : entry.1 = key
      · by_cases h : key = other
        · simp [putEntry, hk, h]
        · simp [putEntry, hk, h]
      · by_cases he : entry.1 = other
        · have h : key ≠ other := fun h => hk (he.trans h.symm)
          rw [putEntry, if_neg hk, if_neg h, List.find?_cons_of_pos (by simpa using he),
            List.find?_cons_of_pos (by simpa using he)]
        · simpa [putEntry, hk, he] using ih
  exact entries table.entries

end Table

end NedCheck
