import BitLayout.Proofs.Register.FieldAccess

/-!
# Values by name

There are two ways from a name to a value. A table of the values of all
fields is filled from the uppermost field to the last indicator, so that a
name ends up with the value of the last one that bears it
(`Table.find?_ofList`); a layout asked for a name gives the first. Nothing
keeps a description from naming two fields alike, or a field like an
indicator, and then the two ways lead to different bits.

Where only one field or indicator bears the name they agree
(`valuesByName_ofText`). An unnamed field with bits bears the empty name
like any unnamed indicator, but its value is not in the table.
-/

namespace BitLayout

namespace Layout

/-- The fields and indicators of a layout that bear a name, in their order. -/
def bearers (layout : Layout) (name : Text) : List Field :=
  (layout.fields ++ layout.bits.values).filter (·.name = name)

/-- Those of them that have a place in a table of values: an unnamed field
with bits only fills a gap. -/
def shown (layout : Layout) : List Field :=
  layout.fields.filter (·.name ≠ []) ++ layout.bits.values

theorem field_eq_head {layout : Layout} {name : Text} {first : Field} {others : List Field}
    (h : layout.bearers name = first :: others) : layout.field name = .ok first := by
  have hfind : layout.find? name = some first := by
    rw [find?, ← List.head?_filter]
    exact congrArg List.head? h
  rw [field, hfind]

theorem shown_sublist (layout : Layout) (name : Text) :
    (layout.shown.filter (·.name = name)).Sublist (layout.bearers name) :=
  (List.filter_sublist.append_right _).filter _

end Layout

namespace Register

/-- The value of a field, or of an indicator's one bit. -/
def ReadsAs (register : Register) (field : Field) (value : Int) : Prop :=
  ∃ index, field.index = some index ∧
    Bits.extract? register.raw index (max field.width 1) = .ok value

/-- A table of values as names are resolved in it. -/
structure ValuesByName (register : Register) (layout : Layout) (values : NameTable) : Prop where
  mem_keys : ∀ name, name ∈ values.keys ↔ name ∈ layout.shown.map Field.name
  /-- A name has the value of the last one that bears it. -/
  last : ∀ name ∈ values.keys, ∃ field value,
    (layout.shown.filter (·.name = name)).getLast? = some field ∧
      register.ReadsAs field value ∧ values.find? name = some value
  /-- A layout asked for the name gives the first one that bears it. -/
  first : ∀ name ∈ values.keys, ∃ field others,
    layout.bearers name = field :: others ∧ layout.field name = .ok field
  /-- Where no two bear the name, the two are the same. -/
  agree : ∀ name ∈ values.keys, (layout.bearers name).length = 1 → ∃ field value,
    layout.field name = .ok field ∧ register.ReadsAs field value ∧
      values.find? name = some value

theorem mapM_eq_ok {ε α β : Type} {f : α → Except ε β} {g : α → β} {l : List α}
    (h : ∀ a ∈ l, f a = .ok (g a)) : l.mapM f = .ok (l.map g) := by
  induction l with
  | nil => rfl
  | cons a l ih =>
    rw [List.mapM_cons, h a List.mem_cons_self, ih fun b hb => h b (List.mem_cons_of_mem a hb)]
    rfl

/-- Once every field reads as some value, the table holds these values. -/
theorem valuesByName_ofList {register : Register} {layout : Layout} (reads : Field → Int)
    (h : ∀ field ∈ layout.shown, register.ReadsAs field (reads field)) :
    ValuesByName register layout
      (Table.ofList (layout.shown.map fun field => (field.name, reads field))) := by
  have hkeys : ∀ name, name ∈ (Table.ofList (layout.shown.map fun field =>
      (field.name, reads field))).keys ↔ name ∈ layout.shown.map Field.name := by
    intro name
    rw [Table.mem_keys_ofList, List.map_map]
    rfl
  have hlast : ∀ name ∈ layout.shown.map Field.name, ∃ field,
      (layout.shown.filter (·.name = name)).getLast? = some field ∧
        register.ReadsAs field (reads field) ∧
        (Table.ofList (layout.shown.map fun field => (field.name, reads field))).find? name =
          some (reads field) := by
    intro name hname
    obtain ⟨bearer, hbearer, hnamed⟩ := List.mem_map.mp hname
    have hmem : bearer ∈ layout.shown.filter (·.name = name) :=
      List.mem_filter.mpr ⟨hbearer, decide_eq_true hnamed⟩
    have hfield := List.getLast?_eq_some_getLast (List.ne_nil_of_mem hmem)
    generalize (layout.shown.filter (·.name = name)).getLast _ = field at hfield
    have hshown := (List.mem_filter.mp (List.mem_of_getLast? hfield)).1
    refine ⟨field, hfield, h field hshown, ?_⟩
    rw [Table.find?_ofList, List.filter_map, List.getLast?_map, Option.map_map]
    have hsame : ((fun entry : Text × Int => decide (entry.1 = name)) ∘
        fun field : Field => (field.name, reads field)) = fun field => decide (field.name = name) :=
      rfl
    rw [hsame, hfield]
    rfl
  have hfirst : ∀ name ∈ layout.shown.map Field.name, ∃ field others,
      layout.bearers name = field :: others := by
    intro name hname
    obtain ⟨last, hget, -, -⟩ := hlast name hname
    have hmem := (layout.shown_sublist name).subset (List.mem_of_getLast? hget)
    exact List.exists_cons_of_ne_nil (List.ne_nil_of_mem hmem)
  refine ⟨hkeys, ?_, ?_, ?_⟩
  · intro name hname
    obtain ⟨field, hget, hreads, hfind⟩ := hlast name ((hkeys name).mp hname)
    exact ⟨field, reads field, hget, hreads, hfind⟩
  · intro name hname
    obtain ⟨field, others, hbearers⟩ := hfirst name ((hkeys name).mp hname)
    exact ⟨field, others, hbearers, Layout.field_eq_head hbearers⟩
  · intro name hname hone
    obtain ⟨last, hget, hreads, hfind⟩ := hlast name ((hkeys name).mp hname)
    obtain ⟨only, honly⟩ := List.length_eq_one_iff.mp hone
    have hmem := (layout.shown_sublist name).subset (List.mem_of_getLast? hget)
    rw [honly, List.mem_singleton] at hmem
    subst hmem
    exact ⟨last, reads last, Layout.field_eq_head honly, hreads, hfind⟩

/-- The number in the bits of a field, or in an indicator's one bit. -/
def windowOf (register : Register) (field : Field) : Int :=
  Bits.extract register.raw field.lowBit (max field.count 1)

theorem windowOf_placed {field : Field} (h : field.Placed) (hwidth : 1 ≤ field.width)
    (register : Register) : register.readField? field = .ok (register.windowOf field) ∧
      register.ReadsAs field (register.windowOf field) := by
  have hcount : max field.count 1 = field.count := by
    have := h.2
    omega
  refine ⟨?_, field.lowBit, h.1, ?_⟩
  · rw [windowOf, hcount]
    exact readField?_of_placed h register.width register.raw
  · rw [windowOf, hcount, Int.max_eq_left hwidth, h.2]
    rfl

theorem windowOf_indicator {field : Field} {bit : Nat} (hwidth : field.width = 0)
    (hindex : field.index = some (bit : Int)) (register : Register) :
    register.readIndicator? field = .ok (register.windowOf field) ∧
      register.ReadsAs field (register.windowOf field) := by
  have hlow : field.lowBit = bit := by
    rw [Field.lowBit, hindex]
    exact Int.toNat_natCast bit
  have hcount : field.count = 0 := by
    rw [Field.count, hwidth]
    rfl
  rw [windowOf, hlow, hcount]
  refine ⟨?_, bit, hindex, ?_⟩
  · rw [readIndicator?, hindex]
    rfl
  · rw [hwidth]
    rfl

/-- **Names in a table of values.** For every layout of a text that declares
anything, and every register, the values of its fields can be read, and
those of a name that one field or indicator alone bears are the value of
the field that the layout has for it. -/
theorem valuesByName_ofText {text : Text} {layout : Layout}
    (h : Layout.ofText text = .ok layout) (hne : layout.isEmpty = false) (register : Register) :
    ∃ values, register.fieldValues? layout = .ok values ∧
      ValuesByName register layout values := by
  obtain ⟨items, -, hpacking⟩ := Layout.packing_ofText h hne
  obtain ⟨width, hwidth⟩ := Int.eq_ofNat_of_zero_le (hpacking.stacked.nonneg hpacking.one_le_width)
  have hstacked := hpacking.stacked
  rw [hwidth] at hstacked
  have hfield : ∀ field ∈ layout.fields,
      register.readField? field = .ok (register.windowOf field) ∧
        register.ReadsAs field (register.windowOf field) := by
    intro field hmem
    exact windowOf_placed (hstacked.placed hpacking.one_le_width field hmem).1
      (hpacking.one_le_width field hmem) register
  have hindicator : ∀ field ∈ layout.bits.values,
      register.readIndicator? field = .ok (register.windowOf field) ∧
        register.ReadsAs field (register.windowOf field) := by
    intro field hmem
    obtain ⟨entry, hentry, rfl⟩ := List.mem_map.mp hmem
    obtain ⟨hnonneg, -, hzero, hindex⟩ := hpacking.bits entry hentry
    obtain ⟨bit, hbit⟩ := Int.eq_ofNat_of_zero_le hnonneg
    exact windowOf_indicator hzero (by rw [hindex, hbit]) register
  refine ⟨_, ?_, valuesByName_ofList register.windowOf ?_⟩
  · have hfields := mapM_eq_ok (l := layout.fields.filter (·.name ≠ []))
      (f := fun field => do return (field.name, ← register.readField? field))
      (g := fun field => (field.name, register.windowOf field)) fun field hmem => by
        rw [(hfield field (List.mem_of_mem_filter hmem)).1]
        rfl
    have hbits := mapM_eq_ok (l := layout.bits.values)
      (f := fun field => do return (field.name, ← register.readIndicator? field))
      (g := fun field => (field.name, register.windowOf field)) fun field hmem => by
        rw [(hindicator field hmem).1]
        rfl
    rw [fieldValues?, hfields, hbits, Layout.shown, List.map_append]
    rfl
  · intro field hmem
    rcases List.mem_append.mp hmem with hmem | hmem
    · exact (hfield field (List.mem_of_mem_filter hmem)).2
    · exact (hindicator field hmem).2

/-- An unnamed field above two named ones and an indicator. -/
theorem valuesByName_ofText_gap :
    let text := "mode:3\nlevel:5\nready:~11".toList
    let layout : Layout :=
      { fields :=
          [⟨[], 4, some 8, none, [], none, ∅⟩, ⟨"mode".toList, 3, some 5, none, [], none, ∅⟩,
           ⟨"level".toList, 5, some 0, none, [], none, ∅⟩]
        bits := Table.ofList [(11, ⟨"ready".toList, 0, some 11, none, [], none, ∅⟩)]
        enumTypes := ∅
        width := 12 }
    Layout.ofText text = .ok layout ∧ layout.isEmpty = false ∧
      ∃ values, (Register.mk 12 2225).fieldValues? layout = .ok values ∧
        ValuesByName ⟨12, 2225⟩ layout values := by
  intro text layout
  have hok : Layout.ofText text = .ok layout := by decide +kernel
  exact ⟨hok, rfl, valuesByName_ofText hok rfl ⟨12, 2225⟩⟩

/-- Two fields of one name: the table has the value of the lower one, and the
layout gives the upper one, whose bits are clear. -/
theorem valuesByName_ofText_twice :
    let upper : Field := ⟨['a'], 3, some 2, none, [], none, ∅⟩
    let lower : Field := ⟨['a'], 2, some 0, none, [], none, ∅⟩
    let layout : Layout := { fields := [upper, lower], bits := ∅, enumTypes := ∅, width := 5 }
    Layout.ofText "a:3\na:2".toList = .ok layout ∧ layout.isEmpty = false ∧
      (Register.mk 5 1).fieldValues? layout = .ok (Table.ofList [(['a'], 1)]) ∧
      layout.field ['a'] = .ok upper ∧ Bits.extract? 1 2 (max upper.width 1) = .ok 0 := by
  decide +kernel

end Register

end BitLayout
