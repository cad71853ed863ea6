import BitLayout.Layout
import BitLayout.Proofs.Table
import BitLayout.Proofs.Text.Trim

/-!
# What a description declares

The items that `Document.read` returns, seen as declarations: the fields
that have bits, in order, and the indicators by the bit they name.
`Layout.declareAll` collects exactly these (`declareAll_fields`,
`declareAll_bits`), so what is known of every item that can be read
(`Document.promises_of_read`) is known of everything a layout is made from.

The promise of an item is what its reader has checked: a field with bits
has at least one of them and no place yet, an indicator has none and
carries the position it is filed under.
-/

namespace BitLayout

/-- What a reader answers to a given text is then a matter of computation. -/
instance decidableEqExcept {ε α : Type} [DecidableEq ε] [DecidableEq α] :
    DecidableEq (Except ε α)
  | .ok a, .ok b => decidable_of_iff (a = b) ⟨congrArg _, Except.ok.inj⟩
  | .error a, .error b => decidable_of_iff (a = b) ⟨congrArg _, Except.error.inj⟩
  | .ok _, .error _ => isFalse nofun
  | .error _, .ok _ => isFalse nofun

theorem mapM_eq_some {α β : Type} {f : α → Option β} {g : α → β} {items : List α}
    (h : ∀ item ∈ items, f item = some (g item)) : items.mapM f = some (items.map g) := by
  induction items with
  | nil => rfl
  | cons item items ih =>
    rw [List.mapM_cons, h item List.mem_cons_self,
      ih fun other hother => h other (List.mem_cons_of_mem item hother)]
    rfl

namespace Field

/-- The field without its place and without the names that its references
lead to: what its line alone says. -/
def declared (field : Field) : Field :=
  { field with index := none, enums := ∅ }

@[simp] theorem declared_width (field : Field) : field.declared.width = field.width := rfl

@[simp] theorem declared_placeAt (field : Field) (index : Int) :
    (field.placeAt index).declared = field.declared := rfl

@[simp] theorem declared_collectNames (types : EnumTypes) (field : Field) :
    (field.collectNames types).declared = field.declared := rfl

@[simp] theorem width_placeAt (field : Field) (index : Int) :
    (field.placeAt index).width = field.width := rfl

@[simp] theorem index_placeAt (field : Field) (index : Int) :
    (field.placeAt index).index = some index := rfl

@[simp] theorem width_collectNames (types : EnumTypes) (field : Field) :
    (field.collectNames types).width = field.width := rfl

@[simp] theorem index_collectNames (types : EnumTypes) (field : Field) :
    (field.collectNames types).index = field.index := rfl

end Field

namespace Item

def field? : Item → Option Field
  | .field f => some f
  | _ => none

/-- The indicator that an item declares, with the bit it is filed under. -/
def indicator? : Item → Option (Int × Field)
  | .indicator index f => some (index, f)
  | _ => none

/-- What the reader of an item has checked. -/
def Promises : Item → Prop
  | .define _ _ => True
  | .enumeration _ _ => True
  | .field f => 1 ≤ f.width ∧ f.declared = f
  | .indicator index f => f.width = 0 ∧ f.index = some (index : Int)

end Item

/-! ## Readers keep the promise -/

/-- White space at the end of a line says nothing about the field. -/
theorem Field.ofContent_trimRight (line : Text) :
    Field.ofContent (Text.trimRight line) = Field.ofContent line := by
  simp only [Field.ofContent, Field.Segments.ofLine, Text.trim, Text.trimRight_trimRight]

theorem Field.readExtent_bits {segment : Text} {count : Nat}
    (h : Field.readExtent segment = .ok (.bits count)) : 1 ≤ count := by
  unfold Field.readExtent at h
  split at h
  · simp_all
  · split at h
    · split at h
      · cases h
      · next n hn _ =>
        obtain rfl : n = count := by simpa using h
        have hne : n ≠ 0 := hn
        omega
      · cases h
    · rename_i rest _
      cases hcount : Field.readCount (Text.trim rest) <;> rw [hcount] at h <;> cases h

theorem Field.ofContent_ranged {line : Text} {field : Field}
    (h : Field.ofContent line = .ok field) (hindex : field.index = none) :
    1 ≤ field.width ∧ field.declared = field := by
  obtain ⟨extent, hextent, rfl⟩ := Field.ofContent_eq_ok_iff.mp h
  cases extent with
  | indicator index => cases hindex
  | bits count => exact ⟨Int.ofNat_le.mpr (Field.readExtent_bits hextent),
      by simp only [Field.declared, Field.Segments.field]⟩

theorem Field.ofContent_indicator {line : Text} {field : Field} {index : Int}
    (h : Field.ofContent line = .ok field) (hindex : field.index = some index) :
    field.width = 0 ∧ 0 ≤ index := by
  obtain ⟨extent, -, rfl⟩ := Field.ofContent_eq_ok_iff.mp h
  cases extent with
  | bits count => cases hindex
  | indicator n =>
    obtain rfl := Option.some.inj hindex
    exact ⟨rfl, Int.natCast_nonneg n⟩

namespace Document

theorem promises_readField {start : Nat} {cursor later : Cursor} {item : Item}
    (h : readField start cursor = .ok (item, later)) : item.Promises := by
  simp only [readField] at h
  split at h
  · cases h
  · next field hfield =>
    split at h
    · next index hindex =>
      cases h
      obtain ⟨hwidth, hpos⟩ := Field.ofContent_indicator hfield hindex
      exact ⟨hwidth, by rw [hindex, Int.toNat_of_nonneg hpos]⟩
    · next hindex =>
      cases h
      exact Field.ofContent_ranged hfield hindex

/-- What a token can begin: a macro, the rest of whose line is passed over, an enumeration, or
the line of a field. -/
theorem readItem_cases {token : Token} {cursor later : Cursor} {item : Item}
    (h : readItem token cursor = .ok (item, later)) :
    (∃ name value front, item = .define name value ∧ later = (Cursor.split ['\n'] front).2) ∨
      (∃ names members, item = .enumeration names members) ∨
      readField token.offset cursor = .ok (item, later) := by
  unfold readItem at h
  split at h
  · simp only [readDefine] at h
    split at h
    · split at h <;> cases h
      exact Or.inl ⟨_, _, _, rfl, rfl⟩
    · cases h
  · split at h
    · unfold readTypedef at h
      split at h <;> cases h
      exact Or.inr (Or.inl ⟨_, _, rfl⟩)
    · split at h
      · unfold readEnumeration at h
        split at h <;> cases h
        exact Or.inr (Or.inl ⟨_, _, rfl⟩)
      · exact Or.inr (Or.inr h)

/-- One step: whatever item a token begins, its reader keeps the promise.
Only the line of a field has anything to check. -/
theorem promises_readItem {token : Token} {cursor later : Cursor} {item : Item}
    (h : readItem token cursor = .ok (item, later)) : item.Promises := by
  rcases readItem_cases h with ⟨_, _, _, rfl, -⟩ | ⟨_, _, rfl⟩ | hfield
  · trivial
  · trivial
  · exact promises_readField hfield

/-- The whole run, by induction along the reader's own recursion: what each
step gives, all items have. -/
theorem forall_readItems {P : Item → Prop}
    (step : ∀ {cursor behind later : Cursor} {token : Token} {item : Item},
      cursor.next = (some token, behind) → readItem token behind = .ok (item, later) → P item)
    {cursor : Cursor} {items : List Item} (h : readItems cursor = .ok items) :
    ∀ item ∈ items, P item := by
  fun_induction readItems cursor generalizing items with
  | case1 => cases h; exact fun _ hmem => (List.not_mem_nil hmem).elim
  | case2 => cases h
  | case3 cursor token behind hnext item later hitem hlt ih =>
    cases hrest : readItems later with
    | error e => rw [hrest] at h; cases h
    | ok others =>
      rw [hrest] at h
      obtain rfl : item :: others = items := by simpa [Except.map] using h
      intro other hmem
      rcases List.mem_cons.mp hmem with rfl | hmem
      · exact step hnext hitem
      · exact ih hrest other hmem

theorem promises_of_read {text : Text} {items : List Item} (h : read text = .ok items) :
    ∀ item ∈ items, item.Promises :=
  forall_readItems (fun _ hitem => promises_readItem hitem) h

end Document

/-! ## What is collected -/

namespace Layout

theorem foldl_declare_fields (items : List Item) (layout : Layout) :
    (items.foldl declare layout).fields = layout.fields ++ items.filterMap Item.field? := by
  induction items generalizing layout with
  | nil => simp
  | cons item items ih =>
    rw [List.foldl_cons, ih]
    cases item <;> simp [declare, Item.field?, List.filterMap_cons]

theorem foldl_declare_bits (items : List Item) (layout : Layout) :
    (items.foldl declare layout).bits =
      layout.bits.insertAll (items.filterMap Item.indicator?) := by
  induction items generalizing layout with
  | nil => rfl
  | cons item items ih =>
    rw [List.foldl_cons, ih]
    cases item <;> rfl

theorem declareAll_fields (items : List Item) :
    (declareAll items).fields = items.filterMap Item.field? :=
  foldl_declare_fields items ∅

theorem declareAll_bits (items : List Item) :
    (declareAll items).bits = Table.ofList (items.filterMap Item.indicator?) :=
  foldl_declare_bits items ∅

theorem width_declareAll (items : List Item) : (declareAll items).width = 0 := by
  have hfold : ∀ layout : Layout, (items.foldl declare layout).width = layout.width := by
    induction items with
    | nil => exact fun _ => rfl
    | cons item items ih =>
      intro layout
      rw [List.foldl_cons, ih]
      cases item <;> rfl
  exact hfold ∅

/-! ## Descriptions of nothing -/

theorem isEmpty_iff (layout : Layout) :
    layout.isEmpty = true ↔ layout.fields = [] ∧ layout.bits.keys = [] := by
  rw [isEmpty, Bool.and_eq_true, List.isEmpty_iff, Table.isEmpty, List.isEmpty_iff,
    Table.keys, List.map_eq_nil_iff]

theorem resolve_of_isEmpty {layout : Layout} (h : layout.isEmpty = true)
    (hwidth : layout.width = 0) : layout.resolve = layout := by
  obtain ⟨hfields, hkeys⟩ := (isEmpty_iff layout).mp h
  have hbits : layout.bits = ∅ := Table.eq_of_entries (List.map_eq_nil_iff.mp hkeys)
  obtain ⟨fields, bits, types, width⟩ := layout
  cases hfields
  cases hbits
  cases hwidth
  rfl

/-- Where nothing is declared there is nothing to resolve, so each layout is a
resolved one. -/
theorem ofItems_eq_resolve (items : List Item) : ofItems items = (declareAll items).resolve := by
  simp only [ofItems]
  split
  · next hempty => exact (resolve_of_isEmpty hempty (width_declareAll items)).symm
  · rfl

/-- Resolving keeps the fields, puts one in front at most, and keeps the bits
that are named. So what is empty afterwards was empty before. -/
theorem isEmpty_of_resolve {layout : Layout} (h : layout.resolve.isEmpty = true) :
    layout.isEmpty = true := by
  obtain ⟨hfields, hbits⟩ := (isEmpty_iff _).mp h
  refine (isEmpty_iff _).mpr ⟨?_, ?_⟩
  · simp only [resolve, List.map_eq_nil_iff] at hfields
    cases hdeclared : layout.fields with
    | nil => rfl
    | cons field fields =>
      rw [hdeclared, padTo] at hfields
      split at hfields <;> cases hfields
  · simpa only [resolve, Table.keys_mapValues] using hbits

theorem width_of_isEmpty {items : List Item} (h : (ofItems items).isEmpty = true) :
    (ofItems items).width = 0 := by
  have hdeclared : (declareAll items).isEmpty = true := by
    rw [ofItems_eq_resolve] at h
    exact isEmpty_of_resolve h
  simp only [ofItems, hdeclared, if_true, width_declareAll]

end Layout

end BitLayout
