import BitLayout.Proofs.Document.FieldLines
import BitLayout.Proofs.Layout.Packing

/-!
# Layouts are written back

A layout is written down by the lines of its fields and, below them, of its
indicators (`Layout.describe?`). What is read from that has the same width,
the same fields at the same places and the same named bits
(`ofText_describe`), apart from the enumerations that are not written.

That takes lines which stand for themselves (`Layout.Writable`). Of the fields
that a description can have, some are written on others: a comment may end in
a backslash, and then the line is joined to the one below; a name may begin
like a comment or a definition behind white space that is trimmed; a literal
may lose the quote that closes it. And an unnamed field of one bit is
written on the empty line, which is no field. It only does no harm at the top,
if an indicator names the highest bit: then the field is put there again.
And of all widths only that of the field put in front was never read, so it
alone can have too many digits to be written.

The lines are read back as the fields that they are written from
(`Document.readItems_describe`), in their order. The rest is arithmetic: the
fields fill the width, so nothing is put in front of them, or only what was
left out.
-/

namespace BitLayout

namespace Field

/-- The field without the names that its references lead to. -/
def bare (field : Field) : Field :=
  { field with enums := ∅ }

@[simp] theorem bare_collectNames (types : EnumTypes) (field : Field) :
    (field.collectNames types).bare = field.bare := rfl

@[simp] theorem describe_collectNames (types : EnumTypes) (field : Field) :
    (field.collectNames types).describe = field.describe := rfl

@[simp] theorem describe?_collectNames (types : EnumTypes) (field : Field) :
    (field.collectNames types).describe? = field.describe? := rfl

/-- Where a field with bits stands is not written. -/
theorem describe_placeAt {field : Field} (h : 1 ≤ field.width) (index : Int) :
    (field.placeAt index).describe = field.describe := by
  have hbits : field.isIndicator = false := decide_eq_false (by omega)
  have hextent : (field.placeAt index).describeExtent = field.describeExtent := by
    rw [describeExtent, describeExtent, show (field.placeAt index).isIndicator = false from hbits,
      hbits]
    rfl
  rw [describe, describe, hextent]
  rfl

theorem describe?_placeAt {field : Field} (h : 1 ≤ field.width) (index : Int) :
    (field.placeAt index).describe? = field.describe? := by
  have hbits : field.isIndicator = false := decide_eq_false (by omega)
  have hnumber : (field.placeAt index).toldNumber? = field.toldNumber? := by
    rw [toldNumber?, toldNumber?, show (field.placeAt index).isIndicator = false from hbits, hbits]
    rfl
  rw [describe?, describe?, hnumber, describe_placeAt h]

end Field

namespace Layout

/-! ## Writing -/

/-- The layout without enumerations and macros, and the names they give. -/
def bare (layout : Layout) : Layout :=
  { layout with
    fields := layout.fields.map Field.bare
    bits := layout.bits.mapValues Field.bare
    enumTypes := ∅ }

/-- The fields of a layout, and below them its indicators. -/
def all (layout : Layout) : List Field :=
  layout.fields ++ layout.bits.values

/-- A line for each of them, however many digits the number in it has. -/
def lines (layout : Layout) : List Text :=
  layout.all.map Field.describe

/-- The description of a layout by its lines, if the numbers in them can be written. -/
def describe? (layout : Layout) : Option Text :=
  (layout.all.mapM Field.describe?).map (Text.joinWith ['\n'])

/-- The lines stand for themselves, whatever is above or below them. The first one may
be that of an unnamed bit, if the bit is named by an indicator. Its width can be written. -/
structure Writable (layout : Layout) : Prop where
  first : ∀ line ∈ layout.lines.head?,
    line.BeginsField ∨ line = [] ∧ layout.width - 1 ∈ layout.bits.keys
  others : ∀ line ∈ layout.lines.tail, line.BeginsField
  ends : ∀ line ∈ layout.lines.dropLast, line.EndsThere
  short : ∀ field ∈ layout.fields.head?, ¬ Numeral.Long .dec field.width

instance (layout : Layout) : Decidable layout.Writable :=
  decidable_of_iff
    ((∀ line ∈ layout.lines.head?,
        line.BeginsField ∨ line = [] ∧ layout.width - 1 ∈ layout.bits.keys) ∧
      (∀ line ∈ layout.lines.tail, line.BeginsField) ∧
      (∀ line ∈ layout.lines.dropLast, line.EndsThere) ∧
      ∀ field ∈ layout.fields.head?, ¬ Numeral.Long .dec field.width)
    ⟨fun h => ⟨h.1, h.2.1, h.2.2.1, h.2.2.2⟩, fun h => ⟨h.first, h.others, h.ends, h.short⟩⟩

/-! ## What is declared -/

/-- What holds of each field that a description declares. -/
structure Declares (layout : Layout) : Prop where
  fields : ∀ field ∈ layout.fields, 1 ≤ field.width ∧ field.index = none ∧ field.Readable
  bits : ∀ entry ∈ layout.bits.entries,
    0 ≤ entry.1 ∧ entry.2.width = 0 ∧ entry.2.index = some entry.1 ∧ entry.2.Readable

theorem declares_declareAll {text : Text} {items : List Item}
    (h : Document.read text = .ok items) : (declareAll items).Declares := by
  have hpromises := Document.promises_of_read h
  have hreadable := Document.readable_of_read h
  refine ⟨fun field hfield => ?_, fun entry hentry => ?_⟩
  · rw [declareAll_fields] at hfield
    obtain ⟨hwidth, hdeclared⟩ := one_le_width_of_promises hpromises field hfield
    obtain ⟨item, hitem, heq⟩ := List.mem_filterMap.mp hfield
    cases item with
    | field f =>
      obtain rfl : f = field := Option.some.inj heq
      exact ⟨hwidth, by rw [← hdeclared]; rfl, hreadable _ hitem⟩
    | _ => cases heq
  · rw [declareAll_bits] at hentry
    have hmem := Table.mem_entries_ofList hentry
    obtain ⟨hpos, hwidth, hindex⟩ := mem_indicators hpromises hmem
    obtain ⟨item, hitem, heq⟩ := List.mem_filterMap.mp hmem
    cases item with
    | indicator index f =>
      obtain rfl : ((index : Int), f) = entry := Option.some.inj heq
      exact ⟨hpos, hwidth, hindex, hreadable _ hitem⟩
    | _ => cases heq

/-- The field that is put in front can be read as well, if its width can be written. -/
theorem readable_padding {width : Int} (h : 1 ≤ width) (hshort : ¬ Numeral.Long .dec width) :
    (padding width).Readable := by
  obtain ⟨count, rfl⟩ := Int.eq_ofNat_of_zero_le (by omega : 0 ≤ width)
  have hne : count ≠ 0 := by omega
  have hlt := Nat.lt_of_not_le (mt Numeral.long_dec_iff.mpr hshort)
  obtain ⟨hextent, hread⟩ := @Field.bits_segment (padding count) count hne hlt rfl
  have hclean : (padding count).segments.Clean :=
    ⟨⟨Text.trimmed_nil, List.not_mem_nil⟩, hextent, ⟨Text.trimmed_nil, List.not_mem_nil⟩,
      ⟨Text.trimmed_nil, List.not_mem_nil⟩, Text.trimmed_nil⟩
  refine ⟨(padding count).describe, .of_not_mem fun hmem => ?_, ?_⟩
  · have hbehind : '\n' ∈ ':' :: ((padding count).describeExtent ++ [':', ':', ':']) :=
      (Field.describe_isPrefix (padding count)).subset hmem
    rcases List.mem_cons.mp hbehind with heq | hbehind
    · exact absurd heq (by decide)
    · rcases List.mem_append.mp hbehind with hbehind | hcolons
      · exact (Field.mem_describeExtent hbehind).2.1 rfl
      · exact absurd hcolons (by decide)
  · exact Field.ofContent_text hclean hread

/-- The fields that a layout is written from: those declared, with the one in front that
fills the width, and the indicators. -/
def written (layout : Layout) : List Field :=
  padTo layout.resolvedWidth layout.fields ++ layout.bits.values

/-- What does not depend on the place of a field with bits. -/
theorem map_place {α : Type} {f : Field → α}
    (hf : ∀ {field : Field}, 1 ≤ field.width → ∀ index, f (field.placeAt index) = f field)
    {fields : List Field} (h : ∀ field ∈ fields, 1 ≤ field.width) (top : Int) :
    (place top fields).map f = fields.map f := by
  induction fields generalizing top with
  | nil => rfl
  | cons field fields ih =>
    rw [place, List.map_cons, List.map_cons, hf (h field List.mem_cons_self),
      ih fun other hother => h other (List.mem_cons_of_mem field hother)]

/-- Neither the places nor the names for values are written. -/
theorem map_resolve {α : Type} {f : Field → α}
    (hf : ∀ {field : Field}, 1 ≤ field.width → ∀ index, f (field.placeAt index) = f field)
    (hnames : ∀ types field, f (field.collectNames types) = f field) {layout : Layout}
    (h : layout.Declares) : layout.resolve.all.map f = layout.written.map f := by
  have hwidths : ∀ field ∈ padTo layout.resolvedWidth layout.fields, 1 ≤ field.width :=
    one_le_width_padTo fun field hfield => (h.fields field hfield).1
  have hfields : layout.resolve.fields.map f =
      (padTo layout.resolvedWidth layout.fields).map f := by
    rw [← map_place hf hwidths layout.resolvedWidth]
    simp [resolve, resolvedWidth, Function.comp_def, hnames]
  have hbits : layout.resolve.bits.values.map f = layout.bits.values.map f := by
    simp [resolve, Table.values, Table.mapValues, Function.comp_def, hnames]
  rw [all, List.map_append, hfields, hbits, written, List.map_append]

theorem lines_resolve {layout : Layout} (h : layout.Declares) :
    layout.resolve.lines = layout.written.map Field.describe :=
  map_resolve Field.describe_placeAt Field.describe_collectNames h

theorem placeless_padTo {layout : Layout} (h : layout.Declares) (width : Int) :
    ∀ field ∈ padTo width layout.fields, field.index = none := by
  have hdeclared : ∀ field ∈ layout.fields, field.index = none :=
    fun field hfield => (h.fields field hfield).2.1
  unfold padTo
  split
  · exact List.forall_mem_cons.mpr ⟨rfl, hdeclared⟩
  · exact hdeclared

theorem Declares.of_mem_values {layout : Layout} (h : layout.Declares) {field : Field}
    (hmem : field ∈ layout.bits.values) : field.width = 0 ∧ field.Readable := by
  obtain ⟨entry, hentry, rfl⟩ := List.mem_map.mp hmem
  obtain ⟨-, hwidth, -, hreadable⟩ := h.bits entry hentry
  exact ⟨hwidth, hreadable⟩

/-- All that a layout is written from can be read, if the width of the field in front can be
written. -/
theorem readable_written {layout : Layout} (h : layout.Declares)
    (hshort : ∀ field ∈ layout.resolve.fields.head?, ¬ Numeral.Long .dec field.width) :
    ∀ field ∈ layout.written, field.Readable := by
  have hdeclared : ∀ field ∈ layout.fields, field.Readable :=
    fun field hfield => (h.fields field hfield).2.2
  have hfields : ∀ field ∈ padTo layout.resolvedWidth layout.fields, field.Readable := by
    unfold padTo
    split
    · next hlt =>
      have hhead : layout.resolve.fields.head? =
          some (((padding (layout.resolvedWidth - totalWidth layout.fields)).placeAt
            (layout.resolvedWidth - (layout.resolvedWidth - totalWidth layout.fields))).collectNames
              layout.enumTypes) := by
        show ((place layout.resolvedWidth (padTo layout.resolvedWidth layout.fields)).map _).head? = _
        rw [padTo, if_pos hlt]
        rfl
      exact List.forall_mem_cons.mpr ⟨readable_padding (by omega) (hshort _ hhead), hdeclared⟩
    · exact hdeclared
  intro field hfield
  rcases List.mem_append.mp hfield with hfield | hfield
  · exact hfields field hfield
  · exact (h.of_mem_values hfield).2

/-- The lines are what is written. -/
theorem describe?_resolve {layout : Layout} (h : layout.Declares)
    (hreadable : ∀ field ∈ layout.written, field.Readable) :
    layout.resolve.describe? = some (Text.joinWith ['\n'] layout.resolve.lines) := by
  have hwritten : layout.written.map Field.describe? =
      (layout.written.map Field.describe).map some := by
    rw [List.map_map]
    refine List.map_congr_left fun field hfield => ?_
    obtain ⟨line, -, hline⟩ := hreadable field hfield
    exact Field.describe?_of_ofContent hline
  have hall : layout.resolve.all.map Field.describe? =
      layout.resolve.all.map (some ∘ Field.describe) := by
    rw [← List.map_map, map_resolve Field.describe?_placeAt Field.describe?_collectNames h, hwritten,
      map_resolve Field.describe_placeAt Field.describe_collectNames h]
  rw [describe?, mapM_eq_some (List.map_inj_left.mp hall)]
  rfl

/-! ## Reading back -/

/-- What is collected from fields without a place and indicators in their places. -/
theorem declareAll_fieldItems {fields : List Field} {bits : Table Int Field}
    (hfields : ∀ field ∈ fields, field.index = none)
    (hbits : ∀ entry ∈ bits.entries, 0 ≤ entry.1 ∧ entry.2.index = some entry.1) :
    (declareAll ((fields ++ bits.values).map Document.fieldItem)).fields = fields ∧
      (declareAll ((fields ++ bits.values).map Document.fieldItem)).bits = bits := by
  have hfield : ∀ field ∈ fields, Document.fieldItem field = .field field := by
    intro field hmem
    rw [Document.fieldItem, hfields field hmem]
  have hbit : ∀ entry ∈ bits.entries,
      Document.fieldItem entry.2 = .indicator entry.1.toNat entry.2 := by
    intro entry hmem
    rw [Document.fieldItem, (hbits entry hmem).2]
  have hitems : (fields ++ bits.values).map Document.fieldItem =
      fields.map Item.field ++ bits.entries.map fun entry => .indicator entry.1.toNat entry.2 := by
    rw [List.map_append, Table.values, List.map_map, List.map_congr_left hfield]
    exact congrArg _ (List.map_congr_left hbit)
  have hnoBit : (fields.map Item.field).filterMap Item.indicator? = [] := by
    rw [List.filterMap_map]
    exact List.filterMap_eq_nil_iff.mpr fun _ _ => rfl
  have hnoField : (bits.entries.map fun entry =>
      Item.indicator entry.1.toNat entry.2).filterMap Item.field? = [] := by
    rw [List.filterMap_map]
    exact List.filterMap_eq_nil_iff.mpr fun _ _ => rfl
  have hentries : (bits.entries.map fun entry =>
      Item.indicator entry.1.toNat entry.2).filterMap Item.indicator? = bits.entries := by
    rw [List.filterMap_map]
    refine (List.filterMap_congr fun entry hmem => ?_).trans List.filterMap_some
    show some ((entry.1.toNat : Int), entry.2) = some entry
    rw [Int.toNat_of_nonneg (hbits entry hmem).1]
  rw [hitems, declareAll_fields, declareAll_bits, List.filterMap_append, List.filterMap_append,
    hnoBit, hnoField, hentries, List.append_nil, List.nil_append, List.filterMap_map]
  exact ⟨List.filterMap_some, Table.empty_merge bits⟩

/-- The fields reach up to the highest named bit, or an indicator does. -/
theorem resolvedWidth_eq {layout : Layout} {width : Int}
    (hle : totalWidth layout.fields ≤ width) (hkeys : ∀ bit ∈ layout.bits.keys, bit < width)
    (hreach : totalWidth layout.fields = width ∨ width - 1 ∈ layout.bits.keys) :
    layout.resolvedWidth = width := by
  have hge : width ≤ layout.resolvedWidth := by
    rcases hreach with heq | hmem
    · rw [← heq]
      exact le_widthFor _ _
    · have hlt : width - 1 < layout.resolvedWidth := lt_widthFor hmem _
      omega
  rcases widthFor_eq_or layout.bits.keys (totalWidth layout.fields) with heq | ⟨bit, hbit, heq⟩
  · have hwidth : layout.resolvedWidth = totalWidth layout.fields := heq
    omega
  · have hwidth : layout.resolvedWidth = bit + 1 := heq
    have hlt := hkeys bit hbit
    omega

/-- What is left of a resolved layout without the names of values. -/
theorem bare_resolve (layout : Layout) :
    layout.resolve.bare =
      { fields := (place layout.resolvedWidth
          (padTo layout.resolvedWidth layout.fields)).map Field.bare
        bits := layout.bits.mapValues Field.bare
        enumTypes := ∅
        width := layout.resolvedWidth } := by
  simp [bare, resolve, resolvedWidth, Table.mapValues, Function.comp_def]

/-- Fields that fill the width give the same layout again, and so do those that lack the
unnamed bit at the top, if an indicator names it. -/
theorem bare_resolve_congr {layout other : Layout} (hbits : other.bits = layout.bits)
    (hfields : padTo layout.resolvedWidth layout.fields = other.fields ∨
      padTo layout.resolvedWidth layout.fields = padding 1 :: other.fields ∧
        layout.resolvedWidth - 1 ∈ layout.bits.keys) :
    other.resolve.bare = layout.resolve.bare := by
  have htotal : totalWidth (padTo layout.resolvedWidth layout.fields) = layout.resolvedWidth :=
    totalWidth_padTo (le_widthFor _ _)
  have hkeys : ∀ bit ∈ other.bits.keys, bit < layout.resolvedWidth := by
    rw [hbits]
    exact fun bit hbit => lt_widthFor hbit _
  have hagain : other.resolvedWidth = layout.resolvedWidth ∧
      padTo layout.resolvedWidth other.fields = padTo layout.resolvedWidth layout.fields := by
    rcases hfields with heq | ⟨heq, htop⟩
    · rw [heq] at htotal ⊢
      refine ⟨resolvedWidth_eq (Int.le_of_eq htotal) hkeys (Or.inl htotal), ?_⟩
      rw [padTo, if_neg (by omega)]
    · rw [heq] at htotal ⊢
      have hone : 1 + totalWidth other.fields = layout.resolvedWidth := htotal
      refine ⟨resolvedWidth_eq (by omega) hkeys (Or.inr (hbits ▸ htop)), ?_⟩
      rw [padTo, if_pos (by omega), ← hone, Int.add_sub_cancel]
  rw [bare_resolve, bare_resolve, hagain.1, hbits, hagain.2]

/-- The only field on the empty line is an unnamed bit. -/
theorem eq_padding_of_describe {field : Field} (h : field.Readable) (hnil : field.describe = []) :
    field = padding 1 := by
  have hread := h.ofContent?_describe
  rw [hnil] at hread
  exact (Option.some.inj hread).symm

/-- Each line is that of a field, or all but the first one are, which is that of the unnamed
bit at the top. -/
theorem Writable.cases {layout : Layout} (hw : layout.resolve.Writable) (h : layout.Declares)
    (hreadable : ∀ field ∈ layout.written, field.Readable) :
    (∀ field ∈ layout.written, field.describe.BeginsField) ∨
      ∃ fields, padTo layout.resolvedWidth layout.fields = padding 1 :: fields ∧
        layout.resolvedWidth - 1 ∈ layout.bits.keys ∧
        ∀ field ∈ fields ++ layout.bits.values, field.describe.BeginsField := by
  obtain ⟨hfirst, hothers, -, -⟩ := hw
  rw [lines_resolve h] at hfirst hothers
  cases hwritten : layout.written with
  | nil => exact Or.inl fun field hfield => absurd hfield List.not_mem_nil
  | cons top rest =>
    rw [hwritten] at hfirst hothers
    have hrest : ∀ field ∈ rest, field.describe.BeginsField := fun field hfield =>
      hothers _ (List.mem_map_of_mem hfield)
    rcases hfirst top.describe rfl with hbegins | ⟨hempty, hbit⟩
    · refine Or.inl fun field hfield => ?_
      rcases List.mem_cons.mp hfield with rfl | hfield
      · exact hbegins
      · exact hrest field hfield
    · have htop : top ∈ layout.written := hwritten ▸ List.mem_cons_self
      obtain rfl := eq_padding_of_describe (hreadable top htop) hempty
      rcases List.append_eq_cons_iff.mp hwritten with ⟨-, hvalues⟩ | ⟨fields, hfields, rfl⟩
      · have hmem : padding 1 ∈ layout.bits.values := hvalues ▸ List.mem_cons_self
        exact absurd (h.of_mem_values hmem).1 (by decide)
      · rw [resolve, Table.keys_mapValues] at hbit
        exact Or.inr ⟨fields, hfields, hbit, hrest⟩

/-- **The lines are read back** as what they are written from, with or without the unnamed
bit at the top. -/
theorem read_describe {layout : Layout} (h : layout.Declares) (hw : layout.resolve.Writable) :
    ∃ fields, Document.read (Text.joinWith ['\n'] layout.resolve.lines) =
        .ok ((fields ++ layout.bits.values).map Document.fieldItem) ∧
      (padTo layout.resolvedWidth layout.fields = fields ∨
        padTo layout.resolvedWidth layout.fields = padding 1 :: fields ∧
          layout.resolvedWidth - 1 ∈ layout.bits.keys) := by
  have hreadable := readable_written h hw.short
  have hends := hw.ends
  rw [lines_resolve h] at hends
  have hfaces := Cursor.faces_ofText (Text.joinWith ['\n'] (layout.written.map Field.describe))
  rw [lines_resolve h]
  rcases hw.cases h hreadable with hbegins | ⟨fields, hfields, hbit, hbegins⟩
  · exact ⟨_, Document.readItems_describe hreadable hbegins hends hfaces, Or.inl rfl⟩
  · have hwritten : layout.written = padding 1 :: (fields ++ layout.bits.values) := by
      rw [written, hfields, List.cons_append]
    rw [hwritten] at hreadable hends hfaces ⊢
    have hbelow : ∀ line ∈ ((fields ++ layout.bits.values).map Field.describe).dropLast,
        line.EndsThere := by
      intro line hline
      refine hends line ?_
      cases hothers : fields ++ layout.bits.values with
      | nil =>
        rw [hothers] at hline
        cases hline
      | cons other others =>
        rw [hothers] at hline
        exact List.mem_cons_of_mem _ hline
    exact ⟨fields, Document.readItems_describe
      (fun field hfield => hreadable field (List.mem_cons_of_mem _ hfield)) hbegins hbelow
      hfaces.below_empty, Or.inr ⟨hfields, hbit⟩⟩

/-- **Layouts are written back.** A layout can be written, and what is read from its lines has
its width, its fields at their places and its named bits. -/
theorem ofText_describe {text : Text} {layout : Layout} (h : ofText text = .ok layout)
    (hwritable : layout.Writable) :
    ∃ written again, layout.describe? = some written ∧ ofText written = .ok again ∧
      again.bare = layout.bare := by
  obtain ⟨items, hread, rfl⟩ := map_eq_ok_iff.mp h
  rw [ofItems_eq_resolve] at hwritable ⊢
  have hdeclares := declares_declareAll hread
  generalize declareAll items = layout at hwritable hdeclares ⊢
  obtain ⟨fields, hagain, hfields⟩ := read_describe hdeclares hwritable
  refine ⟨_, _, describe?_resolve hdeclares (readable_written hdeclares hwritable.short),
    by rw [ofText, hagain]; rfl, ?_⟩
  rw [ofItems_eq_resolve]
  have hplaceless : ∀ field ∈ fields, field.index = none := by
    intro field hfield
    refine placeless_padTo hdeclares layout.resolvedWidth field ?_
    rcases hfields with heq | ⟨heq, -⟩
    · rwa [heq]
    · rw [heq]
      exact List.mem_cons_of_mem _ hfield
  have hindices : ∀ entry ∈ layout.bits.entries,
      0 ≤ entry.1 ∧ entry.2.index = some entry.1 := by
    intro entry hentry
    obtain ⟨hpos, -, hindex, -⟩ := hdeclares.bits entry hentry
    exact ⟨hpos, hindex⟩
  obtain ⟨hfieldsAgain, hbitsAgain⟩ := declareAll_fieldItems hplaceless hindices
  rw [← hfieldsAgain] at hfields
  exact bare_resolve_congr hbitsAgain hfields

/-- A name over two lines, a bit on top that only an indicator names, and a backslash
at the very end. -/
theorem ofText_describe_quoted :
    let text := "\"a\nb\":2:::x\\ny\nc:~2:\\".toList
    let layout : Layout :=
      { fields :=
          [⟨[], 1, some 2, none, [], none, ∅⟩,
           ⟨"\"a\nb\"".toList, 2, some 0, none, [], some "x\ny".toList, ∅⟩]
        bits := Table.ofList [(2, ⟨['c'], 0, some 2, some ['\\'], [], none, ∅⟩)]
        enumTypes := ∅
        width := 3 }
    ofText text = .ok layout ∧ layout.isEmpty = false ∧ layout.Writable ∧
      layout.describe? = some ('\n' :: text) ∧
      ∃ written again, layout.describe? = some written ∧ ofText written = .ok again ∧
        again.bare = layout.bare := by
  intro text layout
  have hok : ofText text = .ok layout := by decide +kernel
  have hwritable : layout.Writable := by decide +kernel
  exact ⟨hok, rfl, hwritable, by decide +kernel, ofText_describe hok hwritable⟩

/-- The comment of the upper field ends in a backslash. Written down, its line is joined
to the one below, and the lower field is lost. -/
theorem ofText_describe_joined :
    let text := "a:3:::see \\ \nb:2".toList
    let layout : Layout :=
      { fields :=
          [⟨['a'], 3, some 2, none, [], some "see \\".toList, ∅⟩,
           ⟨['b'], 2, some 0, none, [], none, ∅⟩]
        bits := ∅
        enumTypes := ∅
        width := 5 }
    let other : Layout :=
      { fields := [⟨['a'], 3, some 0, none, [], some "see  b:2".toList, ∅⟩]
        bits := ∅
        enumTypes := ∅
        width := 3 }
    ofText text = .ok layout ∧ layout.isEmpty = false ∧
      layout.describe? = some "a:3:::see \\\nb:2".toList ∧
      ofText "a:3:::see \\\nb:2".toList = .ok other ∧ other.width ≠ layout.width := by
  decide +kernel

end Layout

end BitLayout
