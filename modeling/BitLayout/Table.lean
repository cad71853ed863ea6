import BitLayout.Text.Basic

/-!
# Tables in insertion order

A table gives each of its keys one value and remembers the order in which the keys first came. A
new value for an old key takes the old place. No key occurs twice, which is part of the type.

Two facts fix `insert`: which value each key has afterwards (`find?_insert`) and where the key
stands (`keys_insert`).
-/

namespace BitLayout

/-- Keys with one value each, in the order of their first insertion. -/
structure Table (κ α : Type) where
  entries : List (κ × α)
  nodup : (entries.map Prod.fst).Nodup
  deriving DecidableEq

namespace Table

variable {κ α : Type}

instance [Repr κ] [Repr α] : Repr (Table κ α) where
  reprPrec table := reprPrec table.entries

def empty : Table κ α :=
  ⟨[], List.nodup_nil⟩

instance : EmptyCollection (Table κ α) := ⟨empty⟩

instance : Inhabited (Table κ α) := ⟨∅⟩

/-- The keys, in the order of their first insertion. -/
def keys (table : Table κ α) : List κ :=
  table.entries.map Prod.fst

def values (table : Table κ α) : List α :=
  table.entries.map Prod.snd

def isEmpty (table : Table κ α) : Bool :=
  table.entries.isEmpty

def mapValues {β : Type} (f : α → β) (table : Table κ α) : Table κ β :=
  ⟨table.entries.map fun e => (e.1, f e.2), by rw [List.map_map]; exact table.nodup⟩

theorem keys_mapValues {β : Type} (f : α → β) (table : Table κ α) :
    (table.mapValues f).keys = table.keys := by
  simp [keys, mapValues]

variable [DecidableEq κ]

/-- Gives a key a value in a list of entries: at its place, or at the end if it has none. -/
def insertEntry (key : κ) (value : α) : List (κ × α) → List (κ × α)
  | [] => [(key, value)]
  | entry :: entries =>
    if entry.1 = key then (key, value) :: entries
    else entry :: insertEntry key value entries

theorem keys_insertEntry (key : κ) (value : α) (entries : List (κ × α)) :
    (insertEntry key value entries).map Prod.fst =
      if key ∈ entries.map Prod.fst then entries.map Prod.fst
      else entries.map Prod.fst ++ [key] := by
  induction entries with
  | nil => simp [insertEntry]
  | cons entry entries ih =>
    by_cases h : entry.1 = key
    · simp [insertEntry, h]
    · rw [insertEntry, if_neg h, List.map_cons, ih]
      have hne : ¬ key = entry.1 := fun heq => h heq.symm
      by_cases hmem : key ∈ entries.map Prod.fst <;> simp [hmem, hne]

theorem nodup_insertEntry (key : κ) (value : α) {entries : List (κ × α)}
    (h : (entries.map Prod.fst).Nodup) :
    ((insertEntry key value entries).map Prod.fst).Nodup := by
  rw [keys_insertEntry]
  split
  · exact h
  · next hmem =>
    rw [List.nodup_append]
    refine ⟨h, List.nodup_cons.2 ⟨List.not_mem_nil, List.nodup_nil⟩, ?_⟩
    intro a ha b hb
    rw [List.mem_singleton] at hb
    rintro rfl
    exact hmem (hb ▸ ha)

/-- Gives a key a value. An old key keeps its place, a new one comes last. -/
def insert (table : Table κ α) (key : κ) (value : α) : Table κ α :=
  ⟨insertEntry key value table.entries, nodup_insertEntry key value table.nodup⟩

def find? (table : Table κ α) (key : κ) : Option α :=
  (table.entries.find? (·.1 = key)).map Prod.snd

def contains (table : Table κ α) (key : κ) : Bool :=
  (table.find? key).isSome

def insertAll (table : Table κ α) (entries : List (κ × α)) : Table κ α :=
  entries.foldl (fun t e => t.insert e.1 e.2) table

/-- Inserts the entries of another table, in its order. -/
def merge (table other : Table κ α) : Table κ α :=
  table.insertAll other.entries

/-- The table that a list of entries describes; a later entry for a key replaces its value. -/
def ofList (entries : List (κ × α)) : Table κ α :=
  insertAll ∅ entries

@[simp] theorem keys_insert (table : Table κ α) (key : κ) (value : α) :
    (table.insert key value).keys =
      if key ∈ table.keys then table.keys else table.keys ++ [key] :=
  keys_insertEntry key value table.entries

theorem find?_insert (table : Table κ α) (key other : κ) (value : α) :
    (table.insert key value).find? other =
      if other = key then some value else table.find? other := by
  obtain ⟨entries, nodup⟩ := table
  simp only [find?, insert]
  clear nodup
  induction entries with
  | nil => by_cases h : key = other <;> simp [insertEntry, h, eq_comm]
  | cons entry entries ih =>
    rw [insertEntry]
    split
    · next h => by_cases ho : key = other <;> simp [h, ho, eq_comm]
    · next h =>
      by_cases he : entry.1 = other
      · have hne : ¬ other = key := fun hok => h (he.trans hok)
        simp [he, hne]
      · simp [he, ih]

end Table

/-- Names with a number each: the members of an enumeration, or the macros of a description. -/
abbrev NameTable := Table Text Int

end BitLayout
