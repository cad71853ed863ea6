import BitLayout.Field.Names
import BitLayout.Proofs.Table

/-!
# Which names a field gets

The rule of precedence between the references of a field (`Resolves`), and
that collecting names follows it (`resolves_collectNames`).

Two passes fill one table. The first merges the members of the enumerations
that are named, so a later reference overrides an earlier one, but the
names keep the places where they first appear. The second only adds
names: macros that no enumeration has given already. So the table is two
lists of entries, one behind the other (`entries_namesOf`), and each
question about a name is asked of the first list before the second.

Whether a macro begins like a reference is seen in upper case, where both
may be longer than they were, and is asked only of references that name no
enumeration.
-/

namespace BitLayout

namespace Field

/-- The members of the enumeration that a reference names; none if it names no enumeration. -/
def members (types : EnumTypes) (ref : Text) : NameTable :=
  (types.named.find? ref).getD ∅

/-- The table holds the names that references lead to, as the rule of precedence has it. -/
structure Resolves (types : EnumTypes) (refs : List Text) (table : NameTable) : Prop where
  /-- A name is a member of a named enumeration, or a macro that begins like a reference to none. -/
  mem_keys : ∀ name, name ∈ table.keys ↔
    (∃ ref ∈ refs, name ∈ (members types ref).keys) ∨
      name ∈ types.macros.keys ∧
        ∃ ref ∈ refs, types.named.find? ref = none ∧ Text.upper ref <+: Text.upper name
  /-- Of the references to enumerations with that member, the last one counts. -/
  ofLast : ∀ front ref behind name value, refs = front ++ ref :: behind →
    (members types ref).find? name = some value →
    (∀ later ∈ behind, name ∉ (members types later).keys) → table.find? name = some value
  /-- Macros count only for names that are no members. -/
  ofMacro : ∀ name ∈ table.keys, (∀ ref ∈ refs, name ∉ (members types ref).keys) →
    table.find? name = types.macros.find? name
  /-- Members come first, in the order in which the references reach them. -/
  order : ∃ behind,
    table.keys = (refs.flatMap fun ref => (members types ref).keys).eraseDups ++ behind ∧
      behind.Sublist types.macros.keys

/-! ## Members -/

theorem typeMembers_concat (types : EnumTypes) (refs : List Text) (ref : Text) :
    typeMembers types (refs ++ [ref]) = (typeMembers types refs).merge (members types ref) := by
  rw [typeMembers, List.filterMap_append, List.foldl_append, members]
  cases h : types.named.find? ref <;> simp [h] <;> rfl

theorem find?_typeMembers (types : EnumTypes) (refs : List Text) (name : Text) :
    (typeMembers types refs).find? name =
      (refs.filterMap fun ref => (members types ref).find? name).getLast? := by
  induction refs using List.reverseRecOn with
  | nil => rfl
  | append_singleton refs ref ih =>
    rw [typeMembers_concat, Table.find?_merge, ih, List.filterMap_append, List.getLast?_append]
    cases h : (members types ref).find? name <;> simp [h]

/-- All members, with repetitions, in the order in which the references reach them. -/
theorem typeMembers_eq_ofList (types : EnumTypes) (refs : List Text) :
    typeMembers types refs =
      Table.ofList (refs.flatMap fun ref => (members types ref).entries) := by
  induction refs using List.reverseRecOn with
  | nil => rfl
  | append_singleton refs ref ih =>
    rw [typeMembers_concat, ih, List.flatMap_append, List.flatMap_singleton, Table.merge]
    exact (Table.insertAll_append ∅ _ _).symm

theorem keys_typeMembers (types : EnumTypes) (refs : List Text) :
    (typeMembers types refs).keys =
      (refs.flatMap fun ref => (members types ref).keys).eraseDups := by
  rw [typeMembers_eq_ofList, Table.keys_ofList, List.map_flatMap]
  rfl

theorem mem_keys_typeMembers {types : EnumTypes} {refs : List Text} {name : Text} :
    name ∈ (typeMembers types refs).keys ↔ ∃ ref ∈ refs, name ∈ (members types ref).keys := by
  rw [keys_typeMembers, List.mem_eraseDups, List.mem_flatMap]

/-! ## Macros -/

/-- Whether a macro of that name is taken along. -/
def adds (types : EnumTypes) (refs : List Text) (name : Text) : Bool :=
  !(typeMembers types refs).contains name &&
    (macroStarts types refs).any (·.isPrefixOf (Text.upper name))

theorem adds_iff {types : EnumTypes} {refs : List Text} {name : Text} :
    adds types refs name = true ↔ name ∉ (typeMembers types refs).keys ∧
      ∃ ref ∈ refs, types.named.find? ref = none ∧ Text.upper ref <+: Text.upper name := by
  simp [adds, macroStarts, Table.contains, ← Table.find?_eq_none_iff]

/-- Macros are put behind the members, in their own order. -/
theorem entries_namesOf (types : EnumTypes) (refs : List Text) :
    (namesOf types refs).entries =
      (typeMembers types refs).entries ++
        types.macros.entries.filter fun e => adds types refs e.1 := by
  have hfilter : ((matchingMacros types (macroStarts types refs)).filter fun e =>
      !(typeMembers types refs).contains e.1) =
      types.macros.entries.filter fun e => adds types refs e.1 := by
    rw [matchingMacros, List.filter_filter]
    rfl
  rw [namesOf, hfilter]
  apply Table.entries_insertAll_of_nodup
  rw [List.map_append, List.nodup_append]
  refine ⟨(typeMembers types refs).nodup,
    types.macros.nodup.sublist (List.filter_sublist.map _), ?_⟩
  rintro name hmember _ hmacro rfl
  obtain ⟨e, he, rfl⟩ := List.mem_map.mp hmacro
  exact (adds_iff.mp (List.mem_filter.mp he).2).1 hmember

theorem keys_namesOf (types : EnumTypes) (refs : List Text) :
    (namesOf types refs).keys =
      (typeMembers types refs).keys ++ types.macros.keys.filter (adds types refs) := by
  rw [Table.keys, entries_namesOf, List.map_append, Table.keys, Table.keys, List.filter_map]
  rfl

theorem find?_namesOf (types : EnumTypes) (refs : List Text) (name : Text) :
    (namesOf types refs).find? name =
      ((typeMembers types refs).find? name).or
        (if adds types refs name then types.macros.find? name else none) := by
  rw [Table.find?, entries_namesOf, List.find?_append, Table.find?_filter_key, Option.map_or,
    apply_ite (Option.map Prod.snd)]
  rfl

/-! ## The rule -/

theorem mem_keys_namesOf {types : EnumTypes} {refs : List Text} {name : Text} :
    name ∈ (namesOf types refs).keys ↔
      (∃ ref ∈ refs, name ∈ (members types ref).keys) ∨
        name ∈ types.macros.keys ∧
          ∃ ref ∈ refs, types.named.find? ref = none ∧ Text.upper ref <+: Text.upper name := by
  rw [keys_namesOf, List.mem_append, List.mem_filter, adds_iff, ← mem_keys_typeMembers]
  tauto

theorem resolves_namesOf (types : EnumTypes) (refs : List Text) :
    Resolves types refs (namesOf types refs) where
  mem_keys name := mem_keys_namesOf
  ofLast := by
    intro front ref behind name value hrefs hvalue hbehind
    have hlater : (behind.filterMap fun later => (members types later).find? name) = [] :=
      List.filterMap_eq_nil_iff.mpr fun later hmem =>
        Table.find?_eq_none_iff.mpr (hbehind later hmem)
    have hlast : (refs.filterMap fun later => (members types later).find? name).getLast? =
        some value := by
      simp [hrefs, hvalue, hlater]
    rw [find?_namesOf, find?_typeMembers, hlast, Option.some_or]
  ofMacro := by
    intro name hname hmember
    have hnone : name ∉ (typeMembers types refs).keys := by
      rw [mem_keys_typeMembers]
      rintro ⟨ref, href, h⟩
      exact hmember ref href h
    rw [keys_namesOf, List.mem_append, List.mem_filter] at hname
    have hadds := (hname.resolve_left hnone).2
    rw [find?_namesOf, Table.find?_eq_none_iff.mpr hnone, Option.none_or, if_pos hadds]
  order := by
    refine ⟨types.macros.keys.filter (adds types refs), ?_, List.filter_sublist⟩
    rw [keys_namesOf, keys_typeMembers]

/-- **Members before macros, and later references before earlier ones.** Collecting names gives a
field the names that the rule of precedence gives its references. It forgets the names that the
field had. Which names there are does not depend on the order of the references. -/
theorem resolves_collectNames (types : EnumTypes) (field : Field) :
    Resolves types field.enumRefs (field.collectNames types).enums ∧
    (∀ held, Field.collectNames types { field with enums := held } = field.collectNames types) ∧
    (∀ former, (field.collectNames former).collectNames types = field.collectNames types) ∧
    ∀ refs name, refs.Perm field.enumRefs →
      (name ∈ (Field.collectNames types { field with enumRefs := refs }).enums.keys ↔
        name ∈ (field.collectNames types).enums.keys) := by
  refine ⟨resolves_namesOf types field.enumRefs, fun held => rfl, fun former => rfl, ?_⟩
  intro refs name hperm
  have hmem : ∀ ref, ref ∈ refs ↔ ref ∈ field.enumRefs := fun ref => hperm.mem_iff
  show name ∈ (namesOf types refs).keys ↔ name ∈ (namesOf types field.enumRefs).keys
  simp only [mem_keys_namesOf, hmem]

-- Both enumerations have the member, and a macro that begins like the reference between them does.
example :
    let types : EnumTypes :=
      { macros := .ofList [("ON".toList, 7), ("Only".toList, 8), ("OFF".toList, 9)]
        named := .ofList [("Mode".toList, .ofList [("ON".toList, 1)]),
          ("Gate".toList, .ofList [("SHUT".toList, 0), ("ON".toList, 2)])] }
    namesOf types ["Mode".toList, "on".toList, "Gate".toList] =
      .ofList [("ON".toList, 2), ("SHUT".toList, 0), ("Only".toList, 8)] := by
  decide +kernel

end Field

end BitLayout
