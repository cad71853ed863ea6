import Mathlib.Data.List.Induction
import BitLayout.Table

/-!
# Entries of a table

What inserting leaves in a table, entry by entry: an entry is either the
one inserted last under its key or was there before, and a key is there
once it was inserted. Where all keys are new, the entries are put behind
the old ones, in their order (`entries_insertAll_of_nodup`).

A table made from a list has each key once, in the order of their first
entries (`keys_ofList`), and each with the value of its last entry
(`find?_ofList`). A table merged into another overrides it
(`find?_merge`).
-/

namespace BitLayout

namespace Table

variable {κ α : Type} [DecidableEq κ]

theorem mem_insertEntry {key : κ} {value : α} {entry : κ × α} :
    ∀ {entries : List (κ × α)}, entry ∈ insertEntry key value entries →
      entry = (key, value) ∨ entry ∈ entries
  | [], h => Or.inl (List.mem_singleton.mp h)
  | first :: entries, h => by
    rw [insertEntry] at h
    split at h
    · rcases List.mem_cons.mp h with rfl | h
      · exact Or.inl rfl
      · exact Or.inr (List.mem_cons_of_mem _ h)
    · rcases List.mem_cons.mp h with rfl | h
      · exact Or.inr List.mem_cons_self
      · exact (mem_insertEntry h).imp id (List.mem_cons_of_mem _)

theorem mem_entries_insertAll {entry : κ × α} :
    ∀ {entries : List (κ × α)} {table : Table κ α},
      entry ∈ (table.insertAll entries).entries → entry ∈ entries ∨ entry ∈ table.entries
  | [], _, h => Or.inr h
  | first :: entries, table, h => by
    have h' : entry ∈ ((table.insert first.1 first.2).insertAll entries).entries := h
    rcases mem_entries_insertAll h' with hin | hin
    · exact Or.inl (List.mem_cons_of_mem _ hin)
    · rcases mem_insertEntry hin with rfl | hold
      · exact Or.inl List.mem_cons_self
      · exact Or.inr hold

theorem mem_entries_ofList {entry : κ × α} {entries : List (κ × α)}
    (h : entry ∈ (ofList entries).entries) : entry ∈ entries :=
  (mem_entries_insertAll h).elim id fun hempty => (List.not_mem_nil hempty).elim

theorem mem_keys_insertAll {key : κ} :
    ∀ {entries : List (κ × α)} {table : Table κ α},
      key ∈ (table.insertAll entries).keys ↔ key ∈ entries.map Prod.fst ∨ key ∈ table.keys
  | [], table => by simp [insertAll]
  | first :: entries, table => by
    have ih : key ∈ ((table.insert first.1 first.2).insertAll entries).keys ↔
        key ∈ entries.map Prod.fst ∨ key ∈ (table.insert first.1 first.2).keys :=
      mem_keys_insertAll
    have hkeys : key ∈ (table.insert first.1 first.2).keys ↔
        key = first.1 ∨ key ∈ table.keys := by
      rw [keys_insert]
      split <;> simp_all [or_comm]
    show key ∈ ((table.insert first.1 first.2).insertAll entries).keys ↔ _
    rw [ih, hkeys, List.map_cons, List.mem_cons, or_left_comm, or_assoc]

theorem mem_keys_ofList {key : κ} {entries : List (κ × α)} :
    key ∈ (ofList entries).keys ↔ key ∈ entries.map Prod.fst := by
  have hempty : (∅ : Table κ α).keys = [] := rfl
  rw [ofList, mem_keys_insertAll, hempty]
  simp

theorem filter_of_not_mem {entries : List (κ × α)} {key : κ}
    (h : key ∉ entries.map Prod.fst) : entries.filter (·.1 = key) = [] := by
  refine List.filter_eq_nil_iff.mpr fun entry hentry heq => h ?_
  exact of_decide_eq_true heq ▸ List.mem_map_of_mem hentry

/-- Each key has one entry. -/
theorem filter_of_mem {table : Table κ α} {key : κ} {value : α}
    (h : (key, value) ∈ table.entries) : table.entries.filter (·.1 = key) = [(key, value)] := by
  obtain ⟨front, rest, hsplit⟩ := List.append_of_mem h
  have hnodup := table.nodup
  rw [hsplit, List.map_append, List.map_cons] at hnodup
  obtain ⟨-, hbehind, hapart⟩ := List.nodup_append.mp hnodup
  have hfront : key ∉ front.map Prod.fst := fun hmem =>
    hapart key hmem key List.mem_cons_self rfl
  have hrest : key ∉ rest.map Prod.fst := (List.nodup_cons.mp hbehind).1
  rw [hsplit, List.filter_append, filter_of_not_mem hfront, List.filter_cons,
    filter_of_not_mem hrest]
  simp

/-- So an entry is what its key is looked up as. -/
theorem find?_of_mem {table : Table κ α} {key : κ} {value : α}
    (h : (key, value) ∈ table.entries) : table.find? key = some value := by
  rw [find?, ← List.head?_filter, filter_of_mem h]
  rfl

theorem mem_of_find? {table : Table κ α} {key : κ} {value : α}
    (h : table.find? key = some value) : (key, value) ∈ table.entries := by
  obtain ⟨⟨other, found⟩, hfind, rfl⟩ := Option.map_eq_some_iff.mp h
  have hkey := List.find?_some hfind
  obtain rfl : other = key := of_decide_eq_true hkey
  exact List.mem_of_find?_eq_some hfind

theorem mem_keys_iff {table : Table κ α} {key : κ} :
    key ∈ table.keys ↔ ∃ value, table.find? key = some value := by
  constructor
  · intro h
    obtain ⟨⟨_, value⟩, hentry, rfl⟩ := List.mem_map.mp h
    exact ⟨value, find?_of_mem hentry⟩
  · rintro ⟨value, h⟩
    exact List.mem_map_of_mem (mem_of_find? h)

theorem find?_eq_none_iff {table : Table κ α} {key : κ} :
    table.find? key = none ↔ key ∉ table.keys := by
  rw [mem_keys_iff, ← Option.isSome_iff_exists, Bool.not_eq_true, Option.isSome_eq_false_iff,
    Option.isNone_iff_eq_none]

omit [DecidableEq κ] in
theorem eq_of_entries {table other : Table κ α} (h : table.entries = other.entries) :
    table = other := by
  cases table
  cases other
  cases h
  rfl

/-- A new key comes last. -/
theorem insertEntry_of_not_mem {key : κ} (value : α) {entries : List (κ × α)}
    (h : key ∉ entries.map Prod.fst) :
    insertEntry key value entries = entries ++ [(key, value)] := by
  induction entries with
  | nil => rfl
  | cons entry entries ih =>
    rw [List.map_cons] at h
    rw [insertEntry, if_neg (List.ne_of_not_mem_cons h).symm,
      ih (List.not_mem_of_not_mem_cons h), List.cons_append]

theorem entries_insertAll_of_nodup {table : Table κ α} {entries : List (κ × α)}
    (h : ((table.entries ++ entries).map Prod.fst).Nodup) :
    (table.insertAll entries).entries = table.entries ++ entries := by
  induction entries generalizing table with
  | nil => exact (List.append_nil _).symm
  | cons entry entries ih =>
    have hnew : entry.1 ∉ table.entries.map Prod.fst := by
      intro hmem
      rw [List.map_append, List.map_cons] at h
      exact (List.nodup_append.mp h).2.2 _ hmem _ List.mem_cons_self rfl
    have hinsert : (table.insert entry.1 entry.2).entries = table.entries ++ [entry] :=
      insertEntry_of_not_mem entry.2 hnew
    have hrest := @ih (table.insert entry.1 entry.2)
      (by rwa [hinsert, List.append_assoc, List.singleton_append])
    rw [hinsert, List.append_assoc, List.singleton_append] at hrest
    exact hrest

theorem empty_merge (table : Table κ α) : (∅ : Table κ α).merge table = table :=
  eq_of_entries (@entries_insertAll_of_nodup κ α _ ∅ table.entries table.nodup)

theorem insertEntry_insertEntry (key : κ) (value later : α) (entries : List (κ × α)) :
    insertEntry key later (insertEntry key value entries) = insertEntry key later entries := by
  induction entries with
  | nil => simp [insertEntry]
  | cons entry entries ih =>
    by_cases heq : entry.1 = key
    · simp [insertEntry, heq]
    · simp [insertEntry, heq, ih]

theorem insert_insert (table : Table κ α) (key : κ) (value later : α) :
    (table.insert key value).insert key later = table.insert key later :=
  eq_of_entries (insertEntry_insertEntry key value later table.entries)

/-! ## Many entries -/

theorem insertAll_append (table : Table κ α) (entries others : List (κ × α)) :
    table.insertAll (entries ++ others) = (table.insertAll entries).insertAll others :=
  List.foldl_append

/-- A key has the value that was inserted last, or else the one it had. -/
theorem find?_insertAll (table : Table κ α) (entries : List (κ × α)) (key : κ) :
    (table.insertAll entries).find? key =
      (((entries.filter (·.1 = key)).getLast?).map Prod.snd).or (table.find? key) := by
  induction entries using List.reverseRecOn with
  | nil => rfl
  | append_singleton entries entry ih =>
    have hstep : table.insertAll (entries ++ [entry]) =
        (table.insertAll entries).insert entry.1 entry.2 := insertAll_append table entries [entry]
    rw [hstep, find?_insert, List.filter_append]
    by_cases h : key = entry.1
    · subst h
      simp
    · have hne : ¬ entry.1 = key := fun heq => h heq.symm
      simp [h, hne, ih]

theorem find?_ofList (entries : List (κ × α)) (key : κ) :
    (ofList entries).find? key = ((entries.filter (·.1 = key)).getLast?).map Prod.snd := by
  rw [ofList, find?_insertAll]
  exact Option.or_none

/-- What is merged overrides what was there. -/
theorem find?_merge (table other : Table κ α) (key : κ) :
    (table.merge other).find? key = (other.find? key).or (table.find? key) := by
  rw [merge, find?_insertAll]
  cases h : other.find? key with
  | some value => simp [filter_of_mem (mem_of_find? h)]
  | none =>
    rw [filter_of_not_mem (find?_eq_none_iff.mp h)]
    rfl

/-- Taking out keys takes out what they are looked up as. -/
theorem find?_filter_key (p : κ → Bool) (entries : List (κ × α)) (key : κ) :
    (entries.filter fun e => p e.1).find? (·.1 = key) =
      if p key then entries.find? (·.1 = key) else none := by
  rw [List.find?_filter]
  induction entries with
  | nil => simp
  | cons entry entries ih =>
    rw [List.find?_cons, List.find?_cons, ih]
    by_cases h : entry.1 = key
    · subst h
      cases p entry.1 <;> simp
    · simp [h]

/-- Keys stand in the order in which they are first inserted. -/
theorem keys_ofList [BEq κ] [LawfulBEq κ] (entries : List (κ × α)) :
    (ofList entries).keys = (entries.map Prod.fst).eraseDups := by
  induction entries using List.reverseRecOn with
  | nil => rfl
  | append_singleton entries entry ih =>
    have hstep : ofList (entries ++ [entry]) = (ofList entries).insert entry.1 entry.2 :=
      insertAll_append ∅ entries [entry]
    rw [hstep, keys_insert, ih, List.map_append, List.eraseDups_append]
    by_cases h : entry.1 ∈ entries.map Prod.fst <;>
      simp [List.cons_removeAll, List.eraseDups_cons, h]

end Table

end BitLayout
