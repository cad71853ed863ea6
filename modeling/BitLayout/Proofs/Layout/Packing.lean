import Mathlib
import BitLayout.Proofs.Layout.Declared
import BitLayout.Proofs.Table

/-!
# Fields are packed without gaps

The layout of a description that declares anything covers its register
exactly: the fields lie one below the other, from the register's width
down to bit zero (`Stacked`), and an unnamed field stands in front if and
only if some indicator lies above what is declared.

The argument has three parts. `place` stacks any list of fields whose
widths add up to the top it starts from (`stacked_place`), and nothing
about the fields themselves is needed for that. `padTo` makes them add up
(`totalWidth_padTo`). That every width is positive, and every indicator
filed under its own bit, is the promise of the items (`Item.Promises`).

`Layout.Packing` gathers what holds of the result; `packing_ofText`
proves it for every text that is read.
-/

namespace BitLayout

namespace Field

/-- The field has a place, and the bit lies in it. -/
def Covers (field : Field) (bit : Int) : Prop :=
  ∃ low, field.index = some low ∧ low ≤ bit ∧ bit < low + field.width

end Field

namespace Layout

/-! ## Widths -/

theorem totalWidth_eq_sum (fields : List Field) :
    totalWidth fields = (fields.map Field.width).sum := by
  induction fields with
  | nil => rfl
  | cons field fields ih =>
    show field.width + totalWidth fields = _
    rw [ih, List.map_cons, List.sum_cons]

@[simp] theorem totalWidth_cons (field : Field) (fields : List Field) :
    totalWidth (field :: fields) = field.width + totalWidth fields := rfl

theorem totalWidth_padTo {width : Int} {fields : List Field} (h : totalWidth fields ≤ width) :
    totalWidth (padTo width fields) = width := by
  unfold padTo
  split
  · show width - totalWidth fields + totalWidth fields = width
    omega
  · omega

theorem le_widthFor (bits : List Int) (width : Int) : width ≤ widthFor width bits := by
  induction bits generalizing width with
  | nil => exact Int.le_refl _
  | cons bit bits ih =>
    have := ih (max width (bit + 1))
    show width ≤ widthFor (max width (bit + 1)) bits
    omega

theorem lt_widthFor {bits : List Int} {bit : Int} (h : bit ∈ bits) (width : Int) :
    bit < widthFor width bits := by
  induction bits generalizing width with
  | nil => exact (List.not_mem_nil h).elim
  | cons first bits ih =>
    show bit < widthFor (max width (first + 1)) bits
    rcases List.mem_cons.mp h with rfl | h
    · have := le_widthFor bits (max width (bit + 1))
      omega
    · exact ih h _

/-- The width is the one that was asked for, or some bit is its highest. -/
theorem widthFor_eq_or (bits : List Int) (width : Int) :
    widthFor width bits = width ∨ ∃ bit ∈ bits, widthFor width bits = bit + 1 := by
  induction bits generalizing width with
  | nil => exact Or.inl rfl
  | cons first bits ih =>
    have hstep : widthFor width (first :: bits) = widthFor (max width (first + 1)) bits := rfl
    rcases ih (max width (first + 1)) with heq | ⟨bit, hbit, heq⟩
    · rcases Int.le_total width (first + 1) with hle | hle
      · exact Or.inr ⟨first, List.mem_cons_self, by rw [hstep, heq]; omega⟩
      · exact Or.inl (by rw [hstep, heq]; omega)
    · exact Or.inr ⟨bit, List.mem_cons_of_mem _ hbit, by rw [hstep, heq]⟩

/-! ## Stacks of fields -/

/-- The fields lie one below the other: the first one ends right below
`top`, each next one where the one before it begins, and the last one
begins at bit zero. -/
def Stacked : Int → List Field → Prop
  | top, [] => top = 0
  | top, field :: fields =>
    field.index = some (top - field.width) ∧ Stacked (top - field.width) fields

theorem stacked_place {top : Int} {fields : List Field} (h : totalWidth fields = top) :
    Stacked top (place top fields) := by
  induction fields generalizing top with
  | nil => exact h.symm
  | cons field fields ih =>
    rw [totalWidth_cons] at h
    exact ⟨rfl, ih (by rw [Field.width_placeAt]; omega)⟩

/-- Only widths and places matter to a stack. -/
theorem Stacked.map {f : Field → Field} (hwidth : ∀ field, (f field).width = field.width)
    (hindex : ∀ field, (f field).index = field.index) :
    ∀ {top : Int} {fields : List Field}, Stacked top fields → Stacked top (fields.map f)
  | _, [], h => h
  | top, field :: fields, ⟨hplace, hrest⟩ => by
    refine ⟨by rw [hindex, hwidth, hplace], ?_⟩
    rw [hwidth]
    exact Stacked.map hwidth hindex hrest

theorem Stacked.top_eq {top : Int} {fields : List Field} (h : Stacked top fields) :
    top = (fields.map Field.width).sum := by
  induction fields generalizing top with
  | nil => exact h
  | cons field fields ih =>
    have := ih h.2
    rw [List.map_cons, List.sum_cons]
    omega

/-- The place of a field is the number of bits that lie below it. -/
theorem Stacked.index_eq {top : Int} {above below : List Field} {field : Field}
    (h : Stacked top (above ++ field :: below)) :
    field.index = some (below.map Field.width).sum := by
  induction above generalizing top with
  | nil =>
    rw [h.1, h.2.top_eq]
  | cons first above ih => exact ih h.2

theorem Stacked.nonneg {top : Int} {fields : List Field} (h : Stacked top fields)
    (hpos : ∀ field ∈ fields, 1 ≤ field.width) : 0 ≤ top := by
  induction fields generalizing top with
  | nil => exact Int.le_of_eq h.symm
  | cons field fields ih =>
    have hfield := hpos field List.mem_cons_self
    have hrest := ih h.2 fun f hf => hpos f (List.mem_cons_of_mem _ hf)
    omega

theorem Stacked.covers_head {top : Int} {field : Field} {fields : List Field}
    (h : Stacked top (field :: fields)) {bit : Int} :
    field.Covers bit ↔ top - field.width ≤ bit ∧ bit < top := by
  constructor
  · rintro ⟨low, hlow, hle, hlt⟩
    obtain rfl : top - field.width = low := Option.some.inj (h.1.symm.trans hlow)
    omega
  · rintro ⟨hle, hlt⟩
    exact ⟨top - field.width, h.1, hle, by omega⟩

/-- Nothing in a stack reaches its top, or below bit zero. -/
theorem Stacked.bounds {top : Int} {fields : List Field} (h : Stacked top fields)
    (hpos : ∀ field ∈ fields, 1 ≤ field.width) {field : Field} (hmem : field ∈ fields)
    {bit : Int} (hcov : field.Covers bit) : 0 ≤ bit ∧ bit < top := by
  induction fields generalizing top with
  | nil => exact (List.not_mem_nil hmem).elim
  | cons first fields ih =>
    have hfirst := hpos first List.mem_cons_self
    have hpos' : ∀ f ∈ fields, 1 ≤ f.width := fun f hf => hpos f (List.mem_cons_of_mem _ hf)
    have hrest := h.2.nonneg hpos'
    rcases List.mem_cons.mp hmem with rfl | hmem
    · have hhead := h.covers_head.mp hcov
      omega
    · have htail := ih h.2 hpos' hmem
      omega

/-- Each bit below the top of a stack lies in exactly one of its fields. -/
theorem Stacked.existsUnique_covers {top : Int} {fields : List Field} (h : Stacked top fields)
    (hpos : ∀ field ∈ fields, 1 ≤ field.width) {bit : Int} (hbit : 0 ≤ bit) (hlt : bit < top) :
    ∃! k : Nat, ∃ field : Field, fields[k]? = some field ∧ field.Covers bit := by
  induction fields generalizing top with
  | nil =>
    have htop : top = 0 := h
    omega
  | cons first fields ih =>
    have hpos' : ∀ f ∈ fields, 1 ≤ f.width := fun f hf => hpos f (List.mem_cons_of_mem _ hf)
    by_cases hhead : top - first.width ≤ bit
    · refine ⟨0, ⟨first, rfl, h.covers_head.mpr ⟨hhead, hlt⟩⟩, ?_⟩
      rintro k ⟨field, hk, hcov⟩
      cases k with
      | zero => rfl
      | succ k =>
        have hmem : field ∈ fields := List.mem_of_getElem? (by simpa using hk)
        have hbelow := h.2.bounds hpos' hmem hcov
        omega
    · obtain ⟨k, ⟨field, hk, hcov⟩, huniq⟩ := ih h.2 hpos' (by omega)
      refine ⟨k + 1, ⟨field, hk, hcov⟩, ?_⟩
      rintro j ⟨other, hj, hother⟩
      cases j with
      | zero =>
        obtain rfl : first = other := by simpa using hj
        exact absurd (h.covers_head.mp hother).1 hhead
      | succ j => rw [huniq j ⟨other, by simpa using hj, hother⟩]

/-! ## Declared fields and padding -/

theorem declared_place (top : Int) (fields : List Field) :
    (place top fields).map Field.declared = fields.map Field.declared := by
  induction fields generalizing top with
  | nil => rfl
  | cons field fields ih =>
    rw [place, List.map_cons, List.map_cons, ih, Field.declared_placeAt]

theorem map_width_declared (fields : List Field) :
    (fields.map Field.declared).map Field.width = fields.map Field.width := by
  rw [List.map_map]
  rfl

theorem one_le_width_of_promises {items : List Item} (h : ∀ item ∈ items, item.Promises) :
    ∀ field ∈ items.filterMap Item.field?, 1 ≤ field.width ∧ field.declared = field := by
  intro field hfield
  obtain ⟨item, hitem, hdecl⟩ := List.mem_filterMap.mp hfield
  cases item with
  | field f =>
    obtain rfl : f = field := Option.some.inj hdecl
    exact h _ hitem
  | _ => cases hdecl

theorem mem_indicators {items : List Item} (h : ∀ item ∈ items, item.Promises)
    {entry : Int × Field} (hentry : entry ∈ items.filterMap Item.indicator?) :
    0 ≤ entry.1 ∧ entry.2.width = 0 ∧ entry.2.index = some entry.1 := by
  obtain ⟨item, hitem, hdecl⟩ := List.mem_filterMap.mp hentry
  cases item with
  | indicator index f =>
    obtain rfl : ((index : Int), f) = entry := Option.some.inj hdecl
    exact ⟨Int.natCast_nonneg index, h _ hitem⟩
  | _ => cases hdecl

/-! ## Resolving -/

/-- How wide the register of a layout is once the layout is resolved. -/
def resolvedWidth (layout : Layout) : Int :=
  widthFor (totalWidth layout.fields) layout.bits.keys

theorem stacked_resolve (layout : Layout) :
    Stacked layout.resolvedWidth layout.resolve.fields := by
  refine Stacked.map (Field.width_collectNames _) (Field.index_collectNames _) ?_
  exact stacked_place (totalWidth_padTo (le_widthFor _ _))

theorem declared_resolve (layout : Layout) :
    layout.resolve.fields.map Field.declared =
      (padTo layout.resolvedWidth layout.fields).map Field.declared := by
  show ((place layout.resolvedWidth (padTo layout.resolvedWidth layout.fields)).map
    (Field.collectNames layout.enumTypes)).map Field.declared = _
  rw [List.map_map, ← declared_place layout.resolvedWidth]
  rfl

theorem one_le_width_padTo {width : Int} {fields : List Field}
    (h : ∀ field ∈ fields, 1 ≤ field.width) : ∀ field ∈ padTo width fields, 1 ≤ field.width := by
  unfold padTo
  split
  · intro field hfield
    rcases List.mem_cons.mp hfield with rfl | hfield
    · show 1 ≤ width - totalWidth fields
      omega
    · exact h field hfield
  · exact h

theorem one_le_width_resolve {layout : Layout} (h : ∀ field ∈ layout.fields, 1 ≤ field.width) :
    ∀ field ∈ layout.resolve.fields, 1 ≤ field.width := by
  intro field hfield
  have hmem : field.declared ∈ layout.resolve.fields.map Field.declared :=
    List.mem_map_of_mem hfield
  rw [declared_resolve] at hmem
  obtain ⟨other, hother, heq⟩ := List.mem_map.mp hmem
  have hwidth : other.width = field.width := by simpa using congrArg Field.width heq
  rw [← hwidth]
  exact one_le_width_padTo h other hother

/-- The highest indicator decides how far the padding reaches. -/
theorem padTo_resolvedWidth (layout : Layout) {bit : Int} (hbit : bit ∈ layout.bits.keys)
    (hle : totalWidth layout.fields ≤ bit) :
    ∃ top ∈ layout.bits.keys, (∀ other ∈ layout.bits.keys, other ≤ top) ∧
      padTo layout.resolvedWidth layout.fields =
        padding (top + 1 - totalWidth layout.fields) :: layout.fields := by
  have hlt : bit < layout.resolvedWidth := lt_widthFor hbit _
  rcases widthFor_eq_or layout.bits.keys (totalWidth layout.fields) with heq | ⟨top, htop, heq⟩
  · have : layout.resolvedWidth = totalWidth layout.fields := heq
    omega
  · have hwidth : layout.resolvedWidth = top + 1 := heq
    refine ⟨top, htop, fun other hother => ?_, ?_⟩
    · have hother : other < layout.resolvedWidth := lt_widthFor hother _
      omega
    · rw [padTo, if_pos (by omega), hwidth]

theorem padTo_resolvedWidth_of_lt (layout : Layout)
    (h : ∀ bit ∈ layout.bits.keys, bit < totalWidth layout.fields) :
    padTo layout.resolvedWidth layout.fields = layout.fields := by
  rcases widthFor_eq_or layout.bits.keys (totalWidth layout.fields) with heq | ⟨top, htop, heq⟩
  · have hwidth : layout.resolvedWidth = totalWidth layout.fields := heq
    rw [padTo, if_neg (by omega)]
  · have hwidth : layout.resolvedWidth = top + 1 := heq
    have htop := h top htop
    rw [padTo, if_neg (by omega)]

/-! ## The packing of a layout -/

/-- How the fields of a layout cover its register, told from the items of
its description. -/
structure Packing (items : List Item) (layout : Layout) : Prop where
  width_eq : layout.width = (layout.fields.map Field.width).sum
  one_le_width : ∀ field ∈ layout.fields, 1 ≤ field.width
  /-- The fields run from the top of the register down to bit zero. -/
  stacked : Stacked layout.width layout.fields
  covered : ∀ bit, 0 ≤ bit → bit < layout.width →
    ∃! k : Nat, ∃ field : Field, layout.fields[k]? = some field ∧ field.Covers bit
  /-- The named bits are those of the indicators. -/
  mem_keys : ∀ bit, bit ∈ layout.bits.keys ↔
    bit ∈ (items.filterMap Item.indicator?).map Prod.fst
  bits : ∀ entry ∈ layout.bits.entries, 0 ≤ entry.1 ∧ entry.1 < layout.width ∧
    entry.2.width = 0 ∧ entry.2.index = some entry.1
  /-- Without an indicator above the declared fields there are no others. -/
  unpadded :
    (∀ bit ∈ layout.bits.keys, bit < ((items.filterMap Item.field?).map Field.width).sum) →
      layout.fields.map Field.declared = items.filterMap Item.field?
  /-- With one, a single unnamed field reaches up to the highest of them. -/
  padded : ∀ bit ∈ layout.bits.keys,
    ((items.filterMap Item.field?).map Field.width).sum ≤ bit →
      ∃ top ∈ layout.bits.keys, (∀ other ∈ layout.bits.keys, other ≤ top) ∧
        layout.fields.map Field.declared =
          padding (top + 1 - ((items.filterMap Item.field?).map Field.width).sum) ::
            items.filterMap Item.field?
  /-- A declared field lies above all that are declared after it. -/
  index_eq : ∀ before field after, items.filterMap Item.field? = before ++ field :: after →
    ∃ above placed below, layout.fields = above ++ placed :: below ∧
      placed.declared = field ∧ below.map Field.declared = after ∧
      placed.index = some (after.map Field.width).sum

theorem packing_resolve {items : List Item} (h : ∀ item ∈ items, item.Promises) :
    Packing items (declareAll items).resolve := by
  have hfields := declareAll_fields items
  have hbits := declareAll_bits items
  have hkeys : (declareAll items).resolve.bits.keys = (declareAll items).bits.keys :=
    Table.keys_mapValues _ _
  have hpromise := one_le_width_of_promises h
  have hdeclared : (items.filterMap Item.field?).map Field.declared =
      items.filterMap Item.field? :=
    (List.map_congr_left fun field hfield => (hpromise field hfield).2).trans (List.map_id _)
  have hpos : ∀ field ∈ (declareAll items).resolve.fields, 1 ≤ field.width :=
    one_le_width_resolve fun field hfield => (hpromise field (hfields ▸ hfield)).1
  have hstacked := stacked_resolve (declareAll items)
  refine ⟨hstacked.top_eq, hpos, hstacked, fun bit => hstacked.existsUnique_covers hpos,
    fun bit => ?_, ?_, ?_, ?_, ?_⟩
  · rw [hkeys, hbits]
    exact Table.mem_keys_ofList
  · intro entry hentry
    obtain ⟨old, hold, rfl⟩ := List.mem_map.mp hentry
    have hmem : old.1 ∈ (declareAll items).bits.keys := List.mem_map_of_mem hold
    rw [hbits] at hold
    obtain ⟨hnonneg, hwidth, hindex⟩ := mem_indicators h (Table.mem_entries_ofList hold)
    exact ⟨hnonneg, lt_widthFor hmem _, hwidth, hindex⟩
  · intro hlt
    rw [hkeys, ← hfields, ← totalWidth_eq_sum] at hlt
    rw [declared_resolve, padTo_resolvedWidth_of_lt _ hlt, hfields, hdeclared]
  · intro bit hbit hle
    rw [hkeys] at hbit ⊢
    rw [← hfields, ← totalWidth_eq_sum] at hle ⊢
    obtain ⟨top, htop, hmax, hpad⟩ := padTo_resolvedWidth _ hbit hle
    refine ⟨top, htop, hmax, ?_⟩
    rw [declared_resolve, hpad, List.map_cons, hfields, hdeclared]
    rfl
  · intro before field after hsplit
    have hmap : ∃ pads, (declareAll items).resolve.fields.map Field.declared =
        pads ++ (before ++ field :: after) := by
      rw [declared_resolve, ← hsplit, ← hdeclared, ← hfields]
      unfold padTo
      split
      · exact ⟨_ :: [], rfl⟩
      · exact ⟨[], rfl⟩
    obtain ⟨pads, hmap⟩ := hmap
    rw [← List.append_assoc] at hmap
    obtain ⟨above, rest, hsplit', -, hrest⟩ := List.map_eq_append_iff.mp hmap
    obtain ⟨placed, below, rfl, hplaced, hbelow⟩ := List.map_eq_cons_iff.mp hrest
    rw [hsplit'] at hstacked
    refine ⟨above, placed, below, hsplit', hplaced, hbelow, ?_⟩
    rw [hstacked.index_eq, ← hbelow, map_width_declared]

/-- **Every layout with a field or an indicator is packed.** For every text
that is read, the fields cover the register of their layout without gap or
overlap, in the order in which they were declared. -/
theorem packing_ofText {text : Text} {layout : Layout} (h : ofText text = .ok layout)
    (hne : layout.isEmpty = false) :
    ∃ items, Document.read text = .ok items ∧ Packing items layout := by
  unfold ofText at h
  cases hread : Document.read text with
  | error e => rw [hread] at h; cases h
  | ok items =>
    rw [hread] at h
    have hlayout : ofItems items = layout := by simpa [Except.map] using h
    refine ⟨items, rfl, ?_⟩
    subst hlayout
    unfold ofItems at hne ⊢
    dsimp only at hne ⊢
    split
    · next hempty => rw [if_pos hempty, hempty] at hne; cases hne
    · exact packing_resolve (Document.promises_of_read hread)

/-- Two fields below an indicator, which is described twice: the padding
reaches up to it, and the second description of it stays. -/
theorem packing_ofText_padded :
    let text := "hi:3\nflag:~7\nlo:2\nflag:~7:red".toList
    let layout : Layout :=
      { fields :=
          [⟨[], 3, some 5, none, [], none, ∅⟩,
           ⟨['h', 'i'], 3, some 2, none, [], none, ∅⟩,
           ⟨['l', 'o'], 2, some 0, none, [], none, ∅⟩]
        bits := Table.ofList
          [(7, ⟨['f', 'l', 'a', 'g'], 0, some 7, some ['r', 'e', 'd'], [], none, ∅⟩)]
        enumTypes := ∅
        width := 8 }
    ofText text = .ok layout ∧ layout.isEmpty = false ∧
      ∃ items, Document.read text = .ok items ∧ Packing items layout := by
  intro text layout
  have hok : ofText text = .ok layout := by decide +kernel
  exact ⟨hok, rfl, packing_ofText hok rfl⟩

end Layout

end BitLayout
