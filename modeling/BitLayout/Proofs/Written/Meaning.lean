import BitLayout.Proofs.Layout.Packing
import BitLayout.Proofs.Written.Reading

/-!
# The layout of a written description

What the declarations of a written description mean for a register: which
names they give to numbers, one after the other; which fields it has and
where; and which of its bits have names (`Meaning`). A description that is
written down is always read as what it means (`meaning_ofText`).

The meaning does not mention how a description is resolved: the width is
told by what it has room for, and a field by what its line says, by the
fields below it, and by the names that its references lead to.
-/

namespace BitLayout

namespace Written

/-! ## Declarations -/

/-- The names that a declaration adds to those from the declarations before it.
Members of an enumeration without a name are macros. -/
def Declaration.addTo (types : EnumTypes) : Declaration → EnumTypes
  | .define name number _ =>
    { types with macros := types.macros.insert name.text number.value }
  | .enumeration none members | .typedef none none members =>
    { types with macros := types.macros.merge (table members) }
  | .enumeration (some tag) members | .typedef (some tag) none members =>
    { types with named := types.named.insert tag.text (table members) }
  | .typedef none (some second) members =>
    { types with named := types.named.insert second.text (table members) }
  | .typedef (some tag) (some second) members =>
    { types with
      named := (types.named.insert second.text (table members)).insert tag.text (table members) }
  | .field _ => types

/-- The field with bits that a declaration declares. -/
def Declaration.field? : Declaration → Option Field
  | .field line => if line.field.index.isNone then some line.field else none
  | _ => none

/-- The indicator that a declaration declares, and the bit it names. -/
def Declaration.indicator? : Declaration → Option (Int × Field)
  | .field line => line.field.index.map fun index => (index, line.field)
  | _ => none

/-- The number of bits of all declared fields. -/
def declaredWidth (declared : List Declaration) : Int :=
  ((declared.filterMap Declaration.field?).map Field.width).sum

/-- The meaning of declarations, as a layout. -/
structure Meaning (declared : List Declaration) (layout : Layout) : Prop where
  enumTypes : layout.enumTypes = declared.foldl Declaration.addTo ∅
  /-- The register has room for the fields and the indicators, and for no more. -/
  declaredWidth_le : declaredWidth declared ≤ layout.width
  indicator_lt : ∀ entry ∈ declared.filterMap Declaration.indicator?, entry.1 < layout.width
  width_eq : layout.width = declaredWidth declared ∨
    ∃ entry ∈ declared.filterMap Declaration.indicator?, layout.width = entry.1 + 1
  /-- The fields are the declared ones, below one without a name if there is room left. -/
  fields : layout.fields.map Field.declared =
    (if declaredWidth declared < layout.width then
      [Layout.padding (layout.width - declaredWidth declared)] else []) ++
        declared.filterMap Declaration.field?
  index : ∀ above field below, layout.fields = above ++ field :: below →
    field.index = some (below.map Field.width).sum
  enums : ∀ field ∈ layout.fields, field.enums = Field.namesOf layout.enumTypes field.enumRefs
  /-- Of two indicators for a bit the later one stays, in the place of the first. -/
  bits : layout.bits = (Table.ofList (declared.filterMap Declaration.indicator?)).mapValues
    fun field => { field with enums := Field.namesOf layout.enumTypes field.enumRefs }

/-! ## What is collected -/

theorem FieldLine.ofContent_describe (line : FieldLine) :
    Field.ofContent line.field.describe = .ok line.field :=
  Field.ofContent?_eq_some_iff.mp line.readBack

theorem field?_item (declaration : Declaration) :
    declaration.item.field? = declaration.field? := by
  cases declaration with
  | field line =>
    simp only [Declaration.item, Declaration.field?]
    cases line.field.index <;> rfl
  | _ => rfl

theorem indicator?_item (declaration : Declaration) :
    declaration.item.indicator? = declaration.indicator? := by
  cases declaration with
  | field line =>
    simp only [Declaration.item, Declaration.indicator?]
    cases hindex : line.field.index with
    | none => rfl
    | some index =>
      obtain ⟨-, hnonneg⟩ := Field.ofContent_indicator line.ofContent_describe hindex
      simp only [Item.indicator?, Int.toNat_of_nonneg hnonneg, Option.map_some]
  | _ => rfl

theorem enumTypes_declare_item (layout : Layout) (declaration : Declaration) :
    (layout.declare declaration.item).enumTypes = declaration.addTo layout.enumTypes := by
  cases declaration with
  | define name number nonneg => rfl
  | enumeration tag members => cases tag <;> rfl
  | typedef tag second members => cases tag <;> cases second <;> rfl
  | field line =>
    simp only [Declaration.item]
    cases line.field.index <;> rfl

theorem enumTypes_foldl (declared : List Declaration) (layout : Layout) :
    ((declared.map Declaration.item).foldl Layout.declare layout).enumTypes =
      declared.foldl Declaration.addTo layout.enumTypes := by
  induction declared generalizing layout with
  | nil => rfl
  | cons declaration declared ih =>
    rw [List.map_cons, List.foldl_cons, List.foldl_cons, ih, enumTypes_declare_item]

theorem filterMap_field? (declared : List Declaration) :
    (declared.map Declaration.item).filterMap Item.field? =
      declared.filterMap Declaration.field? := by
  rw [List.filterMap_map]
  exact List.filterMap_congr fun declaration _ => field?_item declaration

theorem filterMap_indicator? (declared : List Declaration) :
    (declared.map Declaration.item).filterMap Item.indicator? =
      declared.filterMap Declaration.indicator? := by
  rw [List.filterMap_map]
  exact List.filterMap_congr fun declaration _ => indicator?_item declaration

theorem item_promises (declaration : Declaration) : declaration.item.Promises := by
  cases declaration with
  | field line =>
    simp only [Declaration.item]
    cases hindex : line.field.index with
    | none => exact Field.ofContent_ranged line.ofContent_describe hindex
    | some index =>
      obtain ⟨hwidth, hnonneg⟩ := Field.ofContent_indicator line.ofContent_describe hindex
      exact ⟨hwidth, by rw [hindex, Int.toNat_of_nonneg hnonneg]⟩
  | _ => trivial

theorem declared_field? (declared : List Declaration) :
    (declared.filterMap Declaration.field?).map Field.declared =
      declared.filterMap Declaration.field? := by
  have hpromises : ∀ item ∈ declared.map Declaration.item, item.Promises := by
    intro item hitem
    obtain ⟨declaration, -, rfl⟩ := List.mem_map.mp hitem
    exact item_promises declaration
  have hdeclared := Layout.one_le_width_of_promises hpromises
  rw [filterMap_field?] at hdeclared
  exact (List.map_congr_left fun field hfield => (hdeclared field hfield).2).trans (List.map_id _)

/-! ## What is resolved -/

theorem meaning_resolve (declared : List Declaration) :
    Meaning declared (Layout.declareAll (declared.map Declaration.item)).resolve := by
  have hfields := Layout.declareAll_fields (declared.map Declaration.item)
  have hbits := Layout.declareAll_bits (declared.map Declaration.item)
  have htypes : (Layout.declareAll (declared.map Declaration.item)).enumTypes =
      declared.foldl Declaration.addTo ∅ := enumTypes_foldl declared ∅
  rw [filterMap_field?] at hfields
  rw [filterMap_indicator?] at hbits
  generalize Layout.declareAll (declared.map Declaration.item) = layout at hfields hbits htypes ⊢
  have htotal : Layout.totalWidth layout.fields = declaredWidth declared := by
    rw [Layout.totalWidth_eq_sum, hfields, declaredWidth]
  have hkeys : ∀ bit, bit ∈ layout.bits.keys ↔
      bit ∈ (declared.filterMap Declaration.indicator?).map Prod.fst := by
    intro bit
    rw [hbits]
    exact Table.mem_keys_ofList
  have hwidth : layout.resolve.width =
      Layout.widthFor (declaredWidth declared) layout.bits.keys := by
    rw [← htotal]
    rfl
  constructor
  case enumTypes => exact htypes
  case declaredWidth_le =>
    rw [hwidth]
    exact Layout.le_widthFor _ _
  case indicator_lt =>
    intro entry hentry
    rw [hwidth]
    exact Layout.lt_widthFor ((hkeys entry.1).mpr (List.mem_map_of_mem hentry)) _
  case width_eq =>
    rw [hwidth]
    refine (Layout.widthFor_eq_or layout.bits.keys (declaredWidth declared)).imp id ?_
    rintro ⟨bit, hbit, heq⟩
    obtain ⟨entry, hentry, rfl⟩ := List.mem_map.mp ((hkeys bit).mp hbit)
    exact ⟨entry, hentry, heq⟩
  case fields =>
    have hplaced : layout.resolvedWidth = layout.resolve.width := rfl
    rw [Layout.declared_resolve, hplaced, Layout.padTo, htotal, hfields]
    split
    · rw [List.map_cons, declared_field?]
      rfl
    · exact declared_field? declared
  case index =>
    intro above field below hsplit
    have hstacked := Layout.stacked_resolve layout
    rw [hsplit] at hstacked
    exact hstacked.index_eq
  case enums =>
    intro field hfield
    obtain ⟨placed, -, rfl⟩ := List.mem_map.mp hfield
    rfl
  case bits =>
    rw [← hbits]
    rfl

/-- **A written description means what its declarations say.** It is read without
an error, whatever the blanks and comments around its declarations. -/
theorem meaning_ofText (lines : List Line) :
    ∃ layout, Layout.ofText (text lines) = .ok layout ∧ Meaning (declarations lines) layout := by
  refine ⟨_, ?_, meaning_resolve (declarations lines)⟩
  rw [Layout.ofText, read_text, ← Layout.ofItems_eq_resolve]
  rfl

end Written

end BitLayout
