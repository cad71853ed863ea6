import Mathlib.Data.List.Pairwise
import BitLayout.Proofs.Bits.Window
import BitLayout.Proofs.Layout.Packing
import BitLayout.Register.Basic

/-!
# Fields of a layout as parts of a register

A register with the width of a layout is the sum of its fields, each
counted from the bit it begins at, and the fields are independent of each
other: a write to one is read back from it and from no other, and after a
write to each the order of the writes and the bits that were there before
are forgotten.

Two facts about a stack of fields carry this. Its windows add up to the
low bits of the register (`Stacked.extract_eq_sum`), and any two of them
lie apart (`Stacked.pairwise_apart`). What a whole run of writes leaves is
then an induction over the run, whose step is one write next to windows
that lie apart from it.
-/

namespace BitLayout

namespace Field

def lowBit (field : Field) : Nat :=
  (field.index.getD 0).toNat

def count (field : Field) : Nat :=
  field.width.toNat

/-- The field has a place in a register, and its width can be one. -/
def Placed (field : Field) : Prop :=
  field.index = some (field.lowBit : Int) ∧ field.width = (field.count : Int)

def Apart (field other : Field) : Prop :=
  field.lowBit + field.count ≤ other.lowBit ∨ other.lowBit + other.count ≤ field.lowBit

theorem Apart.symm {field other : Field} (h : Apart field other) : Apart other field :=
  Or.symm h

instance : Std.Symm Apart := ⟨fun _ _ => Apart.symm⟩

theorem Placed.covers_iff {field : Field} (h : field.Placed) {bit : Int} :
    field.Covers bit ↔ (field.lowBit : Int) ≤ bit ∧ bit < (field.lowBit + field.count : Nat) := by
  unfold Covers
  rw [h.1, h.2]
  constructor
  · rintro ⟨low, hlow, hle, hlt⟩
    obtain rfl := Option.some.inj hlow
    omega
  · rintro ⟨hle, hlt⟩
    exact ⟨field.lowBit, rfl, hle, by omega⟩

end Field

/-! ## Windows of a stack -/

namespace Layout

theorem Stacked.head_lowBit {top : Int} {field : Field} {fields : List Field}
    (h : Stacked top (field :: fields)) (hpos : ∀ f ∈ field :: fields, 1 ≤ f.width) :
    field.Placed ∧ top = (field.lowBit + field.count : Nat) ∧ Stacked field.lowBit fields := by
  have hwidth := hpos field List.mem_cons_self
  have hrest := h.2.nonneg fun f hf => hpos f (List.mem_cons_of_mem _ hf)
  have hlow : (field.lowBit : Int) = top - field.width := by
    rw [Field.lowBit, h.1]
    exact Int.toNat_of_nonneg hrest
  have hcount : (field.count : Int) = field.width := Int.toNat_of_nonneg (by omega)
  refine ⟨⟨by rw [hlow, h.1], hcount.symm⟩, by omega, ?_⟩
  rw [hlow]
  exact h.2

theorem Stacked.placed {top : Int} {fields : List Field} (h : Stacked top fields)
    (hpos : ∀ f ∈ fields, 1 ≤ f.width) :
    ∀ field ∈ fields, field.Placed ∧ ((field.lowBit + field.count : Nat) : Int) ≤ top := by
  induction fields generalizing top with
  | nil => exact fun _ hmem => (List.not_mem_nil hmem).elim
  | cons first fields ih =>
    obtain ⟨hfirst, htop, hrest⟩ := h.head_lowBit hpos
    intro field hmem
    rcases List.mem_cons.mp hmem with rfl | hmem
    · exact ⟨hfirst, Int.le_of_eq htop.symm⟩
    · obtain ⟨hplaced, hle⟩ := ih hrest (fun f hf => hpos f (List.mem_cons_of_mem _ hf)) field hmem
      exact ⟨hplaced, by omega⟩

theorem Stacked.pairwise_apart {top : Int} {fields : List Field} (h : Stacked top fields)
    (hpos : ∀ f ∈ fields, 1 ≤ f.width) : fields.Pairwise Field.Apart := by
  induction fields generalizing top with
  | nil => exact List.Pairwise.nil
  | cons first fields ih =>
    obtain ⟨-, -, hrest⟩ := h.head_lowBit hpos
    have hpos' : ∀ f ∈ fields, 1 ≤ f.width := fun f hf => hpos f (List.mem_cons_of_mem _ hf)
    refine List.Pairwise.cons (fun field hmem => Or.inr ?_) (ih hrest hpos')
    have := (hrest.placed hpos' field hmem).2
    omega

/-- The windows of a stack of fields add up to the bits below its top. -/
theorem Stacked.extract_eq_sum {top : Nat} {fields : List Field} (h : Stacked top fields)
    (hpos : ∀ f ∈ fields, 1 ≤ f.width) (v : Int) :
    Bits.extract v 0 top =
      (fields.map fun f => Bits.extract v f.lowBit f.count * 2 ^ f.lowBit).sum := by
  induction fields generalizing top with
  | nil =>
    obtain rfl : top = 0 := Int.ofNat_inj.mp h
    rw [Bits.extract_eq, Int.pow_zero, Int.emod_one]
    rfl
  | cons first fields ih =>
    obtain ⟨-, htop, hrest⟩ := h.head_lowBit hpos
    obtain rfl : top = first.lowBit + first.count := Int.ofNat_inj.mp htop
    rw [Bits.extract_add, Nat.zero_add,
      ih hrest fun f hf => hpos f (List.mem_cons_of_mem _ hf), List.map_cons, List.sum_cons]

theorem Packing.placed {items : List Item} {layout : Layout} (h : Packing items layout) :
    ∀ field ∈ layout.fields, field.Placed ∧ 1 ≤ field.width :=
  fun field hmem => ⟨(h.stacked.placed h.one_le_width field hmem).1, h.one_le_width field hmem⟩

/-- The field at another place of a layout lies apart. -/
theorem Packing.apart {items : List Item} {layout : Layout} (h : Packing items layout)
    {place other : Nat} {field neighbour : Field} (hfield : layout.fields[place]? = some field)
    (hneighbour : layout.fields[other]? = some neighbour) (hne : other ≠ place) :
    field.Apart neighbour := by
  have hapart := List.pairwise_iff_getElem.mp (h.stacked.pairwise_apart h.one_le_width)
  obtain ⟨hplace, rfl⟩ := List.getElem?_eq_some_iff.mp hfield
  obtain ⟨hother, rfl⟩ := List.getElem?_eq_some_iff.mp hneighbour
  rcases Nat.lt_or_gt_of_ne hne with hlt | hgt
  · exact (hapart other place hother hplace hlt).symm
  · exact hapart place other hplace hother hgt

end Layout

namespace Register

/-! ## One access -/

theorem readField?_of_placed {field : Field} (h : field.Placed) (width raw : Int) :
    (Register.mk width raw).readField? field =
      .ok (Bits.extract raw field.lowBit field.count) := by
  rw [readField?, h.1, h.2]
  rfl

theorem insert?_of_placed {field : Field} (h : field.Placed) (raw x : Int) :
    Bits.insert? raw (field.index.getD 0) field.width x =
      .ok (Bits.insert raw field.lowBit field.count x) := by
  rw [h.1, h.2]
  rfl

theorem unsigned?_natCast (width : Nat) (raw : Int) :
    (Register.mk width raw).unsigned? = .ok (Bits.extract raw 0 width) := rfl

/-- A write leaves every window that lies apart from its own. -/
theorem extract_insert_apart {field other : Field} (h : field.Apart other) (raw x : Int) :
    Bits.extract (Bits.insert raw field.lowBit field.count x) other.lowBit other.count =
      Bits.extract raw other.lowBit other.count := by
  rcases h with hle | hle
  · exact Bits.extract_insert_above raw hle x _
  · exact Bits.extract_insert_below raw hle _ x

/-- A write to a field leaves the bits that it does not cover. -/
theorem extract_insert_uncovered {field : Field} (h : field.Placed) {bit : Nat}
    (hcov : ¬ field.Covers bit) (raw x : Int) :
    Bits.extract (Bits.insert raw field.lowBit field.count x) bit 1 = Bits.extract raw bit 1 := by
  rw [h.covers_iff] at hcov
  rcases Nat.lt_or_ge bit field.lowBit with hlt | hge
  · exact Bits.extract_insert_below raw hlt _ x
  · exact Bits.extract_insert_above raw (by omega) x 1

/-! ## A run of writes -/

/-- Writes a value to each of the fields, one after the other. -/
def writeFields (value : Field → Int) (raw : Int) (order : List Field) : Int :=
  order.foldl (fun raw f => Bits.insert raw f.lowBit f.count (value f)) raw

theorem foldlM_insert? {order : List Field} (h : ∀ f ∈ order, f.Placed) (value : Field → Int)
    (raw : Int) :
    order.foldlM (fun raw f => Bits.insert? raw (f.index.getD 0) f.width (value f)) raw =
      .ok (writeFields value raw order) := by
  induction order generalizing raw with
  | nil => rfl
  | cons first order ih =>
    rw [List.foldlM_cons, insert?_of_placed (h first List.mem_cons_self)]
    exact ih (fun f hf => h f (List.mem_cons_of_mem _ hf)) _

theorem extract_writeFields_apart {order : List Field} {other : Field}
    (h : ∀ f ∈ order, f.Apart other) (value : Field → Int) (raw : Int) :
    Bits.extract (writeFields value raw order) other.lowBit other.count =
      Bits.extract raw other.lowBit other.count := by
  induction order generalizing raw with
  | nil => rfl
  | cons first order ih =>
    show Bits.extract (writeFields value (Bits.insert raw _ _ (value first)) order) _ _ = _
    rw [ih (fun f hf => h f (List.mem_cons_of_mem _ hf)),
      extract_insert_apart (h first List.mem_cons_self)]

/-- After the whole run each field holds what was written to it: nothing
that comes later in the run reaches its window. -/
theorem extract_writeFields {order : List Field} (h : order.Pairwise Field.Apart)
    (value : Field → Int) (raw : Int) {field : Field} (hmem : field ∈ order) :
    Bits.extract (writeFields value raw order) field.lowBit field.count =
      value field % 2 ^ field.count := by
  induction order generalizing raw with
  | nil => exact (List.not_mem_nil hmem).elim
  | cons first order ih =>
    obtain ⟨hfirst, hrest⟩ := List.pairwise_cons.mp h
    show Bits.extract (writeFields value (Bits.insert raw _ _ (value first)) order) _ _ = _
    by_cases hlater : field ∈ order
    · exact ih hrest _ hlater
    · obtain rfl : field = first := (List.mem_cons.mp hmem).resolve_right hlater
      rw [extract_writeFields_apart (fun f hf => (hfirst f hf).symm), Bits.extract_insert]

/-! ## Registers of a layout -/

/-- A register of the layout's width with an integer in it is made of the
fields, and of nothing else. -/
structure PackedBy (layout : Layout) (raw : Int) : Prop where
  /-- The unsigned view is the sum of the fields. -/
  unsigned_eq : ∃ reads : Field → Int,
    (∀ f ∈ layout.fields, (Register.mk layout.width raw).readField? f = .ok (reads f)) ∧
      (Register.mk layout.width raw).unsigned? =
        .ok (layout.fields.map fun f => reads f * 2 ^ f.lowBit).sum
  /-- What is written to a field is read back from it, and nothing else
  changes: no other field, no indicator outside it, no bit above the register. -/
  write : ∀ f ∈ layout.fields, ∀ x, ∃ later,
    Bits.insert? raw (f.index.getD 0) f.width x = .ok later ∧
      (Register.mk layout.width later).readField? f = .ok (x % 2 ^ f.count) ∧
      (∀ g ∈ layout.fields, g ≠ f →
        (Register.mk layout.width later).readField? g =
          (Register.mk layout.width raw).readField? g) ∧
      (∀ entry ∈ layout.bits.entries, ¬ f.Covers entry.1 →
        (Register.mk layout.width later).readIndicator? entry.2 =
          (Register.mk layout.width raw).readIndicator? entry.2) ∧
      (∀ j : Nat, layout.width ≤ j → Bits.bit later j = Bits.bit raw j)
  /-- Writes to all fields, in any order, leave the sum of what was written. -/
  write_all : ∀ (value : Field → Int) (order : List Field), order.Perm layout.fields →
    ∃ later,
      order.foldlM (fun raw f => Bits.insert? raw (f.index.getD 0) f.width (value f)) raw =
        .ok later ∧
      (Register.mk layout.width later).unsigned? =
        .ok (layout.fields.map fun f => value f % 2 ^ f.count * 2 ^ f.lowBit).sum

/-- **Fields pack a register without loss or interference**, whatever text
the layout comes from and whatever integer is in the register. -/
theorem packedBy_ofText {text : Text} {layout : Layout} (h : Layout.ofText text = .ok layout)
    (hne : layout.isEmpty = false) (raw : Int) : PackedBy layout raw := by
  obtain ⟨items, -, hpacking⟩ := Layout.packing_ofText h hne
  obtain ⟨width, hwidth⟩ := Int.eq_ofNat_of_zero_le (hpacking.stacked.nonneg hpacking.one_le_width)
  have hstacked := hpacking.stacked
  rw [hwidth] at hstacked
  have hplaced := hstacked.placed hpacking.one_le_width
  have hapart := hstacked.pairwise_apart hpacking.one_le_width
  have hsum := hstacked.extract_eq_sum hpacking.one_le_width
  constructor
  · refine ⟨fun f => Bits.extract raw f.lowBit f.count,
      fun f hf => readField?_of_placed (hplaced f hf).1 _ raw, ?_⟩
    rw [hwidth, unsigned?_natCast, hsum]
  · intro f hf x
    obtain ⟨hf', htop⟩ := hplaced f hf
    refine ⟨_, insert?_of_placed hf' raw x, ?_, ?_, ?_, ?_⟩
    · rw [readField?_of_placed hf', Bits.extract_insert]
    · intro g hg hne
      rw [readField?_of_placed (hplaced g hg).1, readField?_of_placed (hplaced g hg).1,
        extract_insert_apart (hapart.forall hf hg (Ne.symm hne))]
    · intro entry hentry hcov
      obtain ⟨hnonneg, -, -, hindex⟩ := hpacking.bits entry hentry
      obtain ⟨bit, hbit⟩ := Int.eq_ofNat_of_zero_le hnonneg
      rw [hbit] at hcov
      rw [readIndicator?, readIndicator?, hindex, hbit]
      show Except.ok (Bits.extract _ bit 1) = Except.ok (Bits.extract raw bit 1)
      rw [extract_insert_uncovered hf' hcov]
    · intro j hj
      exact Bits.bit_insert_of_le raw (by omega) x
  · intro value order hperm
    have horder : order.Pairwise Field.Apart := (hperm.pairwise_iff Field.Apart.symm).mpr hapart
    refine ⟨_, foldlM_insert? (fun f hf => (hplaced f (hperm.mem_iff.mp hf)).1) value raw, ?_⟩
    rw [hwidth, unsigned?_natCast, hsum]
    refine congrArg (fun terms : List Int => Except.ok terms.sum)
      (List.map_congr_left fun f hf => ?_)
    rw [extract_writeFields horder value raw (hperm.mem_iff.mpr hf)]

/-- A negative integer that is wider than its register, and an indicator
inside a field. -/
theorem packedBy_ofText_negative :
    let text := "hi:3\nlo:2\nflag:~1".toList
    let layout : Layout :=
      { fields :=
          [⟨['h', 'i'], 3, some 2, none, [], none, ∅⟩, ⟨['l', 'o'], 2, some 0, none, [], none, ∅⟩]
        bits := Table.ofList [(1, ⟨['f', 'l', 'a', 'g'], 0, some 1, none, [], none, ∅⟩)]
        enumTypes := ∅
        width := 5 }
    Layout.ofText text = .ok layout ∧ layout.isEmpty = false ∧ PackedBy layout (-1234) := by
  intro text layout
  have hok : Layout.ofText text = .ok layout := by decide +kernel
  exact ⟨hok, rfl, packedBy_ofText hok rfl (-1234)⟩

end Register

end BitLayout
