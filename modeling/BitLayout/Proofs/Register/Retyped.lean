import BitLayout.Proofs.Bits.Window
import BitLayout.Proofs.Numeral.RoundTrip
import BitLayout.Proofs.Register.Readers

/-!
# A register's numeral is typed back in

The numeral that a register shows can be typed in again. What it says is
the number of a view, signed or unsigned, while the integer in the register
may be any that has this view; storing the number of the view in its place
changes the integer and keeps both views. The reason is that all of these
integers agree in the low bits (`extract_extract`, `extract_toSigned`), and
a view looks at nothing else.
-/

namespace BitLayout

namespace Bits

theorem extract_extract (v : Int) (width : Nat) :
    extract (extract v 0 width) 0 width = extract v 0 width :=
  extract_within v 0 (Nat.le_of_eq (Nat.zero_add width))

theorem extract_neg_one (width : Nat) : extract (-1) 0 width = 2 ^ width - 1 := by
  have hpos : (0 : Int) < 2 ^ width := Int.pow_pos (by decide)
  rw [extract_eq, Int.pow_zero, Int.ediv_one, ← Int.add_emod_right,
    Int.emod_eq_of_lt (by omega) (by omega), Int.add_comm, Int.sub_eq_add_neg]

/-- The meaning of bits in two's complement has these bits. -/
theorem extract_toSigned (u : Int) (width : Nat) :
    extract (toSigned u width) 0 width = extract u 0 width := by
  have hmod : ∀ v : Int, extract v 0 width = v % 2 ^ width := by
    intro v
    rw [extract_eq, Int.pow_zero, Int.ediv_one]
  rw [hmod, hmod, toSigned]
  split
  · next hwidth =>
    obtain rfl : width = 0 := by omega
    rw [Int.pow_zero, Int.emod_one, Int.emod_one]
  · split
    · rfl
    · rw [Int.toNat_natCast, weight_eq, Int.sub_emod_right]

end Bits

namespace Register

/-- One of the two views. -/
def view? (register : Register) (signed : Bool) : Except Bits.Fault Int :=
  if signed then register.signed? else register.unsigned?

/-- A text that a register shows for a view, and what comes of typing it in. -/
structure Retyped (register : Register) (radix : Radix) (signed : Bool) (text : Text)
    (view : Int) : Prop where
  shown : register.view? signed = .ok view
  render_eq : register.render radix.base signed = .ok text
  /-- The text is a numeral, so no literal is looked for. -/
  parse_eq : Numeral.parse text radix.base = .ok view
  stored : (readNumeral text radix.base).outcome register =
    (.ok view, { register with raw := view })
  /-- Neither view changes, whichever of them was shown. -/
  views_eq : ∀ other, ({ register with raw := view } : Register).view? other =
    register.view? other

theorem view?_natCast (width : Nat) (raw : Int) (signed : Bool) :
    (Register.mk width raw).view? signed =
      .ok (if signed then Bits.toSigned (Bits.extract raw 0 width) width
        else Bits.extract raw 0 width) := by
  cases signed <;> rfl

/-- Views agree where the low bits do. -/
theorem view?_congr {width : Nat} {raw other : Int}
    (h : Bits.extract raw 0 width = Bits.extract other 0 width) (signed : Bool) :
    (Register.mk width raw).view? signed = (Register.mk width other).view? signed := by
  rw [view?_natCast, view?_natCast, h]

/-- The number of a view has the low bits of the register. -/
theorem extract_view {width : Nat} {raw view : Int} {signed : Bool}
    (h : (Register.mk width raw).view? signed = .ok view) :
    Bits.extract view 0 width = Bits.extract raw 0 width := by
  rw [view?_natCast] at h
  obtain rfl := Except.ok.inj h
  split
  · rw [Bits.extract_toSigned, Bits.extract_extract]
  · exact Bits.extract_extract raw width

theorem render_of_view {register : Register} {signed : Bool} {view : Int}
    (h : register.view? signed = .ok view) (radix : Radix) :
    register.render radix.base signed =
      if Numeral.Long radix view then .error .tooLong else .ok (Numeral.render radix view) := by
  rw [view?] at h
  rw [render, h]
  show (Numeral.format view radix.base).mapError RegisterFault.ofNumeral = _
  rw [Numeral.format_base]
  split <;> rfl

theorem parse_render {radix : Radix} {value : Int} (hshort : ¬ Numeral.Long radix value) :
    Numeral.parse (Numeral.render radix value) radix.base = .ok value := by
  rw [Numeral.parse_base]
  exact Numeral.read_render (Decidable.em (radix = .dec)).symm hshort

/-- **A register's numeral is typed back in**, in every radix and for either
view, whatever integer is in the register, if the numeral can be written. -/
theorem retyped_render (register : Register) (h : 0 ≤ register.width) (radix : Radix)
    (signed : Bool)
    (hshort : ∀ view, register.view? signed = .ok view → ¬ Numeral.Long radix view) :
    ∃ text view, Retyped register radix signed text view := by
  obtain ⟨width, raw⟩ := register
  obtain ⟨width, rfl⟩ := Int.eq_ofNat_of_zero_le h
  have hview := view?_natCast width raw signed
  generalize (if signed then _ else _ : Int) = view at hview
  have hwritten := hshort view hview
  have hparse := parse_render hwritten
  have hrender := render_of_view hview radix
  rw [if_neg hwritten] at hrender
  exact ⟨Numeral.render radix view, view, hview, hrender, hparse,
    outcome_readNumeral_ok hparse _, view?_congr (extract_view hview)⟩

/-- The one bit of a register is its sign, and what it shows is neither its
integer nor its unsigned view. -/
theorem retyped_render_oneBit :
    (0 : Int) ≤ 1 ∧ Retyped ⟨1, -3⟩ .oct true "-01".toList (-1) := by
  have hwidth : (0 : Int) ≤ 1 := by decide
  obtain ⟨text, view, h⟩ := retyped_render ⟨1, -3⟩ hwidth .oct true fun view _ =>
    Numeral.not_long_of_ne (by decide) view
  have hview : (Register.mk 1 (-3)).view? true = .ok (-1) := by decide
  have htext : (Register.mk 1 (-3)).render 8 true = .ok "-01".toList := by decide
  obtain rfl := Except.ok.inj (hview.symm.trans h.shown)
  obtain rfl := Except.ok.inj (htext.symm.trans h.render_eq)
  exact ⟨hwidth, h⟩

/-- So many bits, all of them set, are more than can be written in decimal. -/
theorem retyped_render_tooLong :
    (Register.mk 14285 (-1)).render 10 false = .error .tooLong ∧
      ¬ ∃ text view, Retyped ⟨14285, -1⟩ .dec false text view := by
  have hview : (Register.mk 14285 (-1)).view? false = .ok (2 ^ 14285 - 1) := by
    rw [← Bits.extract_neg_one 14285]
    exact view?_natCast 14285 (-1) false
  have hlong : Numeral.Long .dec (2 ^ 14285 - 1) := by
    rw [Numeral.long_dec_iff]
    decide +kernel
  have hrender := render_of_view hview .dec
  rw [if_pos hlong] at hrender
  refine ⟨hrender, ?_⟩
  rintro ⟨text, view, h⟩
  cases hrender.symm.trans h.render_eq

end Register

end BitLayout
