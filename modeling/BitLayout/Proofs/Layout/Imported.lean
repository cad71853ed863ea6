import BitLayout.Prepared
import BitLayout.Proofs.Document.Digits
import BitLayout.Proofs.Layout.Packing

/-!
# Imported definitions

The names and widths of a register database are written down without any
quoting, and still the layout that is read from them is the one that they
list (`imported_ofText`): a field for each definition, in their order and
with their widths, and nothing else.

It takes little for that (`Definition.Importable`). A name begins like
one, so its line is that of a field and whatever else the name contains is
part of the line; it has no line feed, so the line is not cut short, and no
colon, so the name is not. Behind the last colon there are digits or
nothing, so no backslash of the name stands where a line ends. Only the
digits may not be too many to be written or read (`Definition.Width.Short`).
-/

namespace BitLayout

namespace Definition

/-! ## Definitions that can be imported -/

namespace Width

/-- The number of bits that is meant. -/
def count : Width → Nat
  | .missing => 1
  | .number count => count.toNat
  | .typed text => Numeral.ofDigits .dec (Text.trim text)

/-- A number of bits that a field can have; a text has it in ASCII digits, with white
space around them or not. -/
def Positive : Width → Prop
  | .missing => True
  | .number count => 0 < count
  | .typed text => (Text.trim text).all Text.isAsciiDigit = true ∧
      0 < Numeral.ofDigits .dec (Text.trim text)

/-- A number that has no more decimal digits than are converted. -/
def Short : Width → Prop
  | .missing => True
  | .number count => ¬ Numeral.Long .dec count
  | .typed text => ¬ Numeral.TooMany .dec (Text.trim text)

instance : (width : Width) → Decidable width.Positive
  | .missing => inferInstanceAs (Decidable True)
  | .number count => inferInstanceAs (Decidable (0 < count))
  | .typed _ => inferInstanceAs (Decidable (_ ∧ _))

instance : (width : Width) → Decidable width.Short
  | .missing => inferInstanceAs (Decidable True)
  | .number _ => inferInstanceAs (Decidable (¬ _))
  | .typed _ => inferInstanceAs (Decidable (¬ _))

/-- What is written down. -/
def segment (width : Width) : Text :=
  Text.trim (width.text?.getD [])

variable {width : Width}

theorem exists_text (h : width.Short) : ∃ text, width.text? = some text := by
  cases width with
  | missing => exact ⟨[], rfl⟩
  | number count => exact ⟨Numeral.decimal count, if_neg h⟩
  | typed text => exact ⟨text, rfl⟩

theorem segment_number {count : Int} (hpos : 0 < count) (hshort : (number count).Short) :
    (number count).segment = Numeral.digits .dec count.toNat := by
  have htext : (number count).text? = some (Numeral.decimal count) := if_neg hshort
  rw [segment, htext, Option.getD_some]
  obtain ⟨n, rfl⟩ := Int.eq_ofNat_of_zero_le (Int.le_of_lt hpos)
  rw [Numeral.decimal_natCast, (Field.trimmed_digits n).1.trim_eq]
  rfl

theorem all_segment (h : width.Positive) (hshort : width.Short) :
    width.segment.all Text.isAsciiDigit = true := by
  cases width with
  | missing => rfl
  | number count =>
    rw [segment_number h hshort]
    exact List.all_eq_true.mpr fun c hc => Numeral.isAsciiDigit_digits hc
  | typed text => exact h.1

theorem readExtent_segment (h : width.Positive) (hshort : width.Short) :
    Field.readExtent width.segment = .ok (.bits width.count) := by
  cases width with
  | missing => rfl
  | number count =>
    have hpos : 0 < count := h
    have hlt := Nat.lt_of_not_le (mt Numeral.long_dec_iff.mpr hshort)
    rw [segment_number h hshort]
    exact Field.readExtent_digits (by omega) (by omega)
  | typed text =>
    obtain ⟨hall, hpos⟩ := h
    have hne : Text.trim text ≠ [] := by
      intro hnil
      rw [hnil] at hpos
      exact absurd hpos (Nat.lt_irrefl 0)
    exact Field.readExtent_of_count (Field.readCount_eq_ok_iff.mpr ⟨⟨hne, hall⟩, hshort, rfl⟩)
      (Nat.ne_of_gt hpos)

/-- No digit is taken for anything else. -/
theorem ne_of_mem_segment (h : width.Positive) (hshort : width.Short) {c d : Char}
    (hc : c ∈ width.segment) (hd : Text.isAsciiDigit d = false) : c ≠ d := by
  rintro rfl
  cases (List.all_eq_true.mp (all_segment h hshort) c hc).symm.trans hd

end Width

/-- The field that is meant. -/
def field (definition : Definition) : Field :=
  ⟨definition.title, definition.width.count, none, none, [], none, ∅⟩

/-- The name begins like the name of a field, and stays on its line and in front of
the colon. -/
structure Importable (definition : Definition) : Prop where
  head : definition.title.head?.any
    (fun c => Token.isWordChar c && !Text.isAsciiDigit c) = true
  not_keyword : definition.title.takeWhile Token.isWordChar ≠ Enumeration.keyword ∧
    definition.title.takeWhile Token.isWordChar ≠ ['t', 'y', 'p', 'e', 'd', 'e', 'f']
  oneLine : '\n' ∉ definition.title
  oneSegment : ':' ∉ definition.title
  width : definition.width.Positive

/-- The line of a definition. -/
def line (definition : Definition) : Text :=
  definition.title ++ ':' :: definition.width.segment

theorem line?_eq {definition : Definition} (h : definition.width.Short) :
    definition.line? = some definition.line := by
  obtain ⟨text, htext⟩ := Width.exists_text h
  rw [line?, line, Width.segment, htext, Option.map_some, Option.getD_some, List.append_assoc,
    List.singleton_append]

theorem describe?_eq {definitions : List Definition}
    (h : ∀ definition ∈ definitions, definition.width.Short) :
    describe? definitions = some (Text.joinWith ['\n'] (definitions.map line)) := by
  rw [describe?, mapM_eq_some fun definition hmem => line?_eq (h definition hmem)]
  rfl

namespace Importable

variable {definition : Definition}

/-- What stands behind the name ends the line. -/
theorem last_line {c : Char} (hc : definition.line.getLast? = some c) :
    c = ':' ∨ c ∈ definition.width.segment := by
  rw [line, List.getLast?_append_of_ne_nil _ (List.cons_ne_nil _ _)] at hc
  exact List.mem_cons.mp (List.mem_of_getLast? hc)

theorem namedLine (h : definition.Importable) (hshort : definition.width.Short) :
    definition.line.NamedLine := by
  have hword : definition.line.takeWhile Token.isWordChar =
      definition.title.takeWhile Token.isWordChar := by
    rw [line, List.takeWhile_append]
    split
    · next hall =>
      rw [List.takeWhile_cons_of_neg (by decide), List.append_nil]
      exact ((List.takeWhile_sublist _).eq_of_length hall).symm
    · rfl
  refine ⟨?_, hword ▸ h.not_keyword, fun hmem => ?_, fun hslash => ?_⟩
  · rw [line, List.head?_append_of_ne_nil _ (Text.ne_nil_of_head h.head)]
    exact h.head
  · rcases List.mem_append.mp hmem with hmem | hmem
    · exact h.oneLine hmem
    · rcases List.mem_cons.mp hmem with heq | hmem
      · exact absurd heq (by decide)
      · exact Width.ne_of_mem_segment h.width hshort hmem (by decide) rfl
  · rcases last_line hslash with heq | hmem
    · exact absurd heq (by decide)
    · exact Width.ne_of_mem_segment h.width hshort hmem (by decide) rfl

/-- **The line of a definition is read as the field that is meant.** -/
theorem ofContent_line (h : definition.Importable) (hshort : definition.width.Short) :
    Field.ofContent definition.line = .ok definition.field := by
  have hname := Text.trimmed_trim (definition.name.getD [])
  obtain ⟨hsegment, hcolon⟩ := Field.trimmed_of_digits (Width.all_segment h.width hshort)
  have hline : definition.line.Trimmed := by
    refine ⟨fun c hc => ?_, fun c hc => ?_⟩
    · rw [line, List.head?_append_of_ne_nil _ (Text.ne_nil_of_head h.head)] at hc
      exact hname.front c hc
    · rcases last_line hc with rfl | hmem
      · decide
      · have hdigit := List.all_eq_true.mp (Width.all_segment h.width hshort) c hmem
        exact Token.visible_of_wordChar (Token.wordChar_of_digit hdigit)
  have hsegments : Field.Segments.ofLine definition.line =
      ⟨definition.title, definition.width.segment, [], [], []⟩ := by
    rw [Field.Segments.ofLine, hline.trim_eq, line, Text.cutAt_append h.oneSegment,
      Text.cutAt_of_not_mem hcolon, title, hname.trim_eq]
    exact congrArg (Field.Segments.mk _ · [] [] []) hsegment.trim_eq
  rw [Field.ofContent, hsegments, Width.readExtent_segment h.width hshort]
  rfl

end Importable

instance (definition : Definition) : Decidable definition.Importable :=
  decidable_of_iff
    (definition.title.head?.any
        (fun c => Token.isWordChar c && !Text.isAsciiDigit c) = true ∧
      (definition.title.takeWhile Token.isWordChar ≠ Enumeration.keyword ∧
        definition.title.takeWhile Token.isWordChar ≠ ['t', 'y', 'p', 'e', 'd', 'e', 'f']) ∧
      '\n' ∉ definition.title ∧ ':' ∉ definition.title ∧ definition.width.Positive)
    ⟨fun h => ⟨h.1, h.2.1, h.2.2.1, h.2.2.2.1, h.2.2.2.2⟩,
      fun h => ⟨h.head, h.not_keyword, h.oneLine, h.oneSegment, h.width⟩⟩

end Definition

namespace Layout

/-! ## The layout of definitions -/

/-- Each definition gives one item. -/
theorem read_definitions {definitions : List Definition}
    (h : ∀ definition ∈ definitions, definition.Importable)
    (hshort : ∀ definition ∈ definitions, definition.width.Short) :
    Document.read (Text.joinWith ['\n'] (definitions.map Definition.line)) =
      .ok (definitions.map fun definition => .field definition.field) := by
  have hfield : ∀ definition ∈ definitions,
      Field.ofContent? definition.line = some definition.field := fun definition hmem =>
    Field.ofContent?_eq_some_iff.mpr
      ((h definition hmem).ofContent_line (hshort definition hmem))
  have hlines : ∀ line ∈ definitions.map Definition.line,
      line.NamedLine ∧ (Field.ofContent? line).isSome := by
    intro line hline
    obtain ⟨definition, hmem, rfl⟩ := List.mem_map.mp hline
    exact ⟨(h definition hmem).namedLine (hshort definition hmem),
      Option.isSome_of_eq_some (hfield definition hmem)⟩
  have hfields : (definitions.map Definition.line).filterMap Field.ofContent? =
      definitions.map Definition.field := by
    rw [List.filterMap_map, ← List.filterMap_eq_map]
    refine List.filterMap_congr fun definition hmem => ?_
    rw [Function.comp_apply, hfield definition hmem, Function.comp_apply]
  have hitems : Document.fieldItems (definitions.map Definition.line) =
      definitions.map fun definition => .field definition.field := by
    rw [Document.fieldItems, hfields, List.map_map]
    rfl
  rw [← hitems]
  exact Document.Adds.read (Document.adds_lines hlines [])

/-- The layout has the fields that are listed, one below the other, and nothing else. -/
structure Imported (definitions : List Definition) (layout : Layout) : Prop where
  bits : layout.bits = ∅
  fields : layout.fields.map Field.declared = definitions.map Definition.field
  width : layout.width = (definitions.map fun definition => (definition.width.count : Int)).sum
  index : ∀ above field below, layout.fields = above ++ field :: below →
    field.index = some (below.map Field.width).sum

/-- **Imported definitions describe the layout that they list**, if the digits of their widths
can be converted. -/
theorem imported_ofText {definitions : List Definition}
    (h : ∀ definition ∈ definitions, definition.Importable)
    (hshort : ∀ definition ∈ definitions, definition.width.Short) :
    ∃ text layout, Definition.describe? definitions = some text ∧ ofText text = .ok layout ∧
      Imported definitions layout := by
  have hread := read_definitions h hshort
  have hpacking := packing_resolve (Document.promises_of_read hread)
  generalize hitems : (definitions.map fun definition => Item.field definition.field) = items
    at hread hpacking
  have hfields : items.filterMap Item.field? = definitions.map Definition.field := by
    rw [← hitems, List.filterMap_map, ← List.filterMap_eq_map]
    rfl
  have hindicators : items.filterMap Item.indicator? = [] := by
    rw [← hitems, List.filterMap_map, List.filterMap_eq_nil_iff]
    exact fun definition _ => rfl
  have hkeys : (declareAll items).resolve.bits.keys = [] := by
    refine List.eq_nil_iff_forall_not_mem.mpr fun bit hbit => ?_
    rw [hpacking.mem_keys, hindicators] at hbit
    exact absurd hbit List.not_mem_nil
  have hdeclared : (declareAll items).resolve.fields.map Field.declared =
      definitions.map Definition.field := by
    rw [← hfields]
    refine hpacking.unpadded fun bit hbit => ?_
    rw [hkeys] at hbit
    exact absurd hbit List.not_mem_nil
  refine ⟨_, (declareAll items).resolve, Definition.describe?_eq hshort, ?_, ?_, hdeclared, ?_, ?_⟩
  · rw [ofText, hread, ← ofItems_eq_resolve]
    rfl
  · exact Table.eq_of_entries (List.map_eq_nil_iff.mp hkeys)
  · rw [hpacking.width_eq, ← map_width_declared, hdeclared, List.map_map]
    rfl
  · intro above field below hsplit
    have hstacked := hpacking.stacked
    rw [hsplit] at hstacked
    exact hstacked.index_eq

/-- Names with what would elsewhere begin a comment or a literal, and one that ends in
a backslash. -/
theorem imported_ofText_three :
    let definitions : List Definition :=
      [⟨some " mode /* 1".toList, .missing⟩, ⟨some "it's // \"".toList, .number 12⟩,
        ⟨some "_\u00e9 \\".toList, .typed "\t07 ".toList⟩]
    (∀ definition ∈ definitions, definition.Importable) ∧
      (∀ definition ∈ definitions, definition.width.Short) ∧
      Definition.describe? definitions = some "mode /* 1:\nit's // \":12\n_\u00e9 \\:07".toList ∧
      ∃ text layout, Definition.describe? definitions = some text ∧ ofText text = .ok layout ∧
        Imported definitions layout := by
  intro definitions
  have hdefinitions : ∀ definition ∈ definitions, definition.Importable := by decide +kernel
  have hshort : ∀ definition ∈ definitions, definition.width.Short := by decide +kernel
  exact ⟨hdefinitions, hshort, by decide +kernel, imported_ofText hdefinitions hshort⟩

/-- A width of too many digits is written down as it is listed, and cannot be read. -/
theorem imported_ofText_tooLong :
    let digits : Text := List.replicate 4301 '1'
    let definition : Definition := ⟨some ['a'], .typed digits⟩
    definition.Importable ∧ Definition.describe? [definition] = some ('a' :: ':' :: digits) ∧
      ofText ('a' :: ':' :: digits) = .error .tooLong := by
  intro digits definition
  have hdigits : digits.all Text.isAsciiDigit = true := Numeral.overlong_ones.decimal
  have htrim : Text.trim digits = digits := (Field.trimmed_of_digits hdigits).1.trim_eq
  refine ⟨⟨rfl, by decide, by decide, by decide, ?_, ?_⟩, ?_,
    ofText_tooLong hdigits Numeral.overlong_ones.many⟩
  · rw [htrim]
    exact hdigits
  · rw [htrim]
    decide +kernel
  · show some (Text.joinWith ['\n'] [Text.trim ['a'] ++ [':'] ++ Text.trim digits]) = _
    rw [htrim]
    rfl

end Layout

end BitLayout
