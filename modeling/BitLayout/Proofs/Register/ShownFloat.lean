import BitLayout.Proofs.Decimal.Literal
import BitLayout.Proofs.Register.Readers
import BitLayout.Proofs.Register.Retyped

/-!
# A register's floating point number is typed back in

A number is shown by the shortest decimal that leads back to it in 64 bits.
A register of 32 bits shows the same number in 64 bits, which has the value
of its own, so that the way back is the way there: the text is read as a
decimal of the same number (`Decimal.spelled_write`), the nearest code of
64 bits is the one that was written (`ofDecimal_shortest`), and narrowing it
undoes the widening (`convert_double`). The sign is a bit of its own and is
written in front, also for zero.

Reading input looks for a numeral first. It finds none, in any radix
(`parse_writeBits`), and so comes to the literal (`reentered_writeFloat`).
-/

namespace BitLayout

namespace FloatFormat

variable {format : FloatFormat}

/-! ## Bits -/

/-- Bits that are a number, by sign and code. -/
theorem exists_encode (h : 0 < format.width) {bits : Nat} (hbits : bits < 2 ^ format.width)
    (hnan : format.decode bits ≠ .nan) :
    ∃ negative code, format.encode negative code = bits ∧
      (code < format.infinity ∧ format.decode bits = .finite negative code ∨
        code = format.infinity ∧ format.decode bits = .infinite negative) := by
  have hencode : format.encode (bits / 2 ^ (format.width - 1) % 2 == 1)
      (bits % 2 ^ (format.width - 1)) = bits := by
    have hhalf : 2 ^ format.width = 2 ^ (format.width - 1) * 2 := by
      rw [← Nat.pow_succ, Nat.succ_eq_add_one, Nat.sub_one_add_one (Nat.ne_of_gt h)]
    have hsign : bits / 2 ^ (format.width - 1) < 2 :=
      Nat.div_lt_of_lt_mul (by rwa [← hhalf])
    have hdiv := Nat.div_add_mod' bits (2 ^ (format.width - 1))
    rw [encode, Nat.mod_eq_of_lt hsign]
    rcases Nat.le_one_iff_eq_zero_or_eq_one.mp (Nat.le_of_lt_succ hsign) with hzero | hone
    · rw [hzero] at hdiv ⊢
      rwa [Nat.zero_mul] at hdiv
    · rw [hone] at hdiv ⊢
      rwa [Nat.one_mul] at hdiv
  rw [decode] at hnan ⊢
  refine ⟨_, _, hencode, ?_⟩
  by_cases hlt : bits % Nat.pow 2 (format.width - 1) < format.infinity
  · exact Or.inl ⟨hlt, if_pos hlt⟩
  · by_cases heq : bits % Nat.pow 2 (format.width - 1) = format.infinity
    · exact Or.inr ⟨heq, by rw [if_neg hlt, if_pos heq]; rfl⟩
    · rw [if_neg hlt, if_neg heq] at hnan
      exact absurd rfl hnan

/-! ## Written bits -/

/-- The text that is written for bits, behind its sign. -/
theorem writeBits_cases (hformat : format = single ∨ format = double) (style : Decimal.Style)
    {bits : Nat} (hbits : bits < 2 ^ format.width) (hnan : format.decode bits ≠ .nan) :
    ∃ negative code, format.encode negative code = bits ∧
      (code < format.infinity ∧ format.writeBits style bits = Text.withSign negative
          ((Decimal.shortest (format.convert .double code)).write style) ∨
        code = format.infinity ∧
          format.writeBits style bits = Text.withSign negative "inf".toList) := by
  have hpos : 0 < format.width := by rcases hformat with rfl | rfl <;> decide
  obtain ⟨negative, code, hencode, hcases⟩ := exists_encode hpos hbits hnan
  refine ⟨negative, code, hencode, ?_⟩
  rw [writeBits]
  rcases hcases with ⟨hcode, hdecode⟩ | ⟨hcode, hdecode⟩
  · exact Or.inl ⟨hcode, by rw [hdecode]; rfl⟩
  · exact Or.inr ⟨hcode, by rw [hdecode]; rfl⟩

/-- What is written for bits is no numeral. -/
theorem parse_writeBits (hformat : format = single ∨ format = double) (style : Decimal.Style)
    {bits : Nat} (hbits : bits < 2 ^ format.width) (hnan : format.decode bits ≠ .nan)
    (radix : Radix) : ∃ failed digits,
      Numeral.parse (format.writeBits style bits) radix.base =
        .error (.refused (.badDigits failed digits)) := by
  obtain ⟨negative, code, -, ⟨-, htext⟩ | ⟨-, htext⟩⟩ := writeBits_cases hformat style hbits hnan
  · obtain ⟨d, hspelled, -⟩ :=
      Decimal.spelled_write style (Decimal.shortest (format.convert .double code))
    rw [htext]
    exact hspelled.parse_withSign negative radix
  · rw [htext]
    exact Decimal.parse_infinity negative radix

/-- What is written for bits is read as the same bits. -/
theorem readBits?_writeBits (hformat : format = single ∨ format = double) (style : Decimal.Style)
    {bits : Nat} (hbits : bits < 2 ^ format.width) (hnan : format.decode bits ≠ .nan) :
    format.readBits? (format.writeBits style bits) = some bits := by
  obtain ⟨negative, code, hencode, ⟨hcode, htext⟩ | ⟨rfl, htext⟩⟩ :=
    writeBits_cases hformat style hbits hnan
  · obtain ⟨hwide, hnarrow⟩ := convert_double hformat hcode
    obtain ⟨d, hspelled, hsame⟩ :=
      Decimal.spelled_write style (Decimal.shortest (format.convert .double code))
    have hnearest : double.ofDecimal d = format.convert .double code :=
      (ofDecimal_congr hsame).trans (ofDecimal_shortest hwide)
    rw [readBits?, htext, hspelled.read?_withSign]
    show some (format.encode negative (convert double format (double.ofDecimal d))) = some bits
    rw [hnearest, hnarrow, hencode]
  · rw [readBits?, htext, Decimal.read?_infinity, ← hencode]
    rfl

end FloatFormat

namespace Register

/-! ## Registers -/

/-- What the low bits of a register are as a floating point number. -/
def datum (register : Register) : Except RegisterFault FloatDatum := do
  let format ← register.floatFormat
  let bits ← register.unsigned?.mapError .bits
  return format.decode bits.toNat

/-- The number that a register shows, and what comes of typing it in. -/
structure Reentered (register : Register) (options : DisplayOptions) (text : Text) (bits : Int) :
    Prop where
  unsigned_eq : register.unsigned? = .ok bits
  writeFloat_eq : register.writeFloat = .ok text
  /-- The text stands between the numerals that are shown. -/
  summary_eq : ∃ numeral hex, register.summary options =
    .ok (numeral ++ (", ".toList ++ text) ++ " (".toList ++ hex ++ [')'])
  /-- No reader of numerals takes the text for one, whatever its radix. -/
  parse_eq : ∀ radix : Radix, ∃ failed digits,
    Numeral.parse text radix.base = .error (.refused (.badDigits failed digits))
  stored : (readInput text options).outcome register = (.ok true, { register with raw := bits })
  /-- It is the same number, with its sign. -/
  datum_eq : ({ register with raw := bits } : Register).datum = register.datum

theorem exists_unsigned (width : Nat) (raw : Int) : ∃ bits : Nat,
    (Register.mk width raw).unsigned? = .ok (bits : Int) ∧ bits < 2 ^ width := by
  obtain ⟨bits, hbits⟩ := Int.eq_ofNat_of_zero_le (Bits.extract_nonneg raw 0 width)
  have hlt := Bits.extract_lt raw 0 width
  rw [hbits] at hlt
  exact ⟨bits, congrArg Except.ok hbits, by exact_mod_cast hlt⟩

/-- The format of a register, and the bits that are looked at through it. -/
theorem exists_floatFormat {register : Register}
    (h : register.width = 32 ∨ register.width = 64) : ∃ format bits,
      (format = FloatFormat.single ∨ format = FloatFormat.double) ∧
        register.floatFormat = .ok format ∧ register.unsigned? = .ok ((bits : Nat) : Int) ∧
          bits < 2 ^ format.width := by
  obtain ⟨width, raw⟩ := register
  rcases h with h | h
  · obtain rfl : width = (FloatFormat.single.width : Nat) := h
    obtain ⟨bits, hunsigned, hbits⟩ := exists_unsigned FloatFormat.single.width raw
    exact ⟨.single, bits, Or.inl rfl, rfl, hunsigned, hbits⟩
  · obtain rfl : width = (FloatFormat.double.width : Nat) := h
    obtain ⟨bits, hunsigned, hbits⟩ := exists_unsigned FloatFormat.double.width raw
    exact ⟨.double, bits, Or.inr rfl, rfl, hunsigned, hbits⟩

/-- A number of so few bits has no more decimal digits than bits. -/
theorem not_long_of_view {width : Nat} (hwidth : width ≤ Numeral.mostDecimals) {raw view : Int}
    {signed : Bool} (h : (Register.mk width raw).view? signed = .ok view) (radix : Radix) :
    ¬ Numeral.Long radix view := by
  have hnonneg := Bits.extract_nonneg raw 0 width
  have hlt := Bits.extract_lt raw 0 width
  have hcast : ((2 ^ width : Nat) : Int) = 2 ^ width := Int.natCast_pow 2 width
  have hview : view.natAbs ≤ 2 ^ width := by
    rw [view?_natCast] at h
    obtain rfl := Except.ok.inj h
    split
    · rw [Bits.toSigned, Int.toNat_natCast, Bits.weight_eq]
      split
      · exact Nat.zero_le _
      · split <;> omega
    · omega
  have hpow : 2 ^ width < 10 ^ Numeral.mostDecimals :=
    calc 2 ^ width ≤ 2 ^ Numeral.mostDecimals := Nat.pow_le_pow_right (by decide) hwidth
      _ < 10 ^ Numeral.mostDecimals := Nat.pow_lt_pow_left (by decide) (by decide)
  rintro ⟨rfl, hmany⟩
  exact Nat.not_le_of_gt (hview.trans_lt hpow) (Numeral.long_dec_iff.mp ⟨rfl, hmany⟩)

theorem exists_render {register : Register} (h : register.width = 32 ∨ register.width = 64)
    (radix : Radix) (signed : Bool) :
    ∃ numeral, register.render radix.base signed = .ok numeral := by
  obtain ⟨width, raw⟩ := register
  obtain ⟨count, rfl, hcount⟩ :
      ∃ count : Nat, width = count ∧ count ≤ Numeral.mostDecimals := by
    rcases h with h | h
    · exact ⟨32, h, by decide⟩
    · exact ⟨64, h, by decide⟩
  have hview := view?_natCast count raw signed
  rw [render_of_view hview, if_neg (not_long_of_view hcount hview radix)]
  exact ⟨_, rfl⟩

/-- What a register shows is put together from two numerals and the note. -/
theorem exists_summary {register : Register}
    (h : register.width = 32 ∨ register.width = 64) {options : DisplayOptions}
    {note : Text} (hnote : register.floatNote options = .ok note) :
    ∃ numeral hex, register.summary options =
      .ok (numeral ++ note ++ " (".toList ++ hex ++ [')']) := by
  obtain ⟨numeral, hnumeral⟩ := exists_render h options.radix options.signed
  obtain ⟨hex, hhex⟩ := exists_render h .hex false
  rw [summary, hnumeral, hnote, show (16 : Int) = Radix.hex.base from rfl, hhex]
  exact ⟨_, _, rfl⟩

/-- The integer of the low bits is the same number. -/
theorem datum_of_unsigned {register : Register} (h : 0 ≤ register.width) {bits : Int}
    (hbits : register.unsigned? = .ok bits) :
    ({ register with raw := bits } : Register).datum = register.datum := by
  obtain ⟨width, raw⟩ := register
  obtain ⟨width, rfl⟩ := Int.eq_ofNat_of_zero_le h
  have hsame : (Register.mk width bits).unsigned? = (Register.mk width raw).unsigned? :=
    view?_congr (@extract_view width raw bits false hbits) false
  rw [datum, datum, hsame]
  rfl

/-- **The number that a register of 32 or 64 bits shows is typed back in**, whatever integer is
in the register and whatever radix the options ask for. -/
theorem reentered_writeFloat (register : Register)
    (hwidth : register.width = 32 ∨ register.width = 64) (hnan : register.datum ≠ .ok .nan)
    (options : DisplayOptions) (hfloat : options.asFloat = true) :
    ∃ text bits, Reentered register options text bits := by
  obtain ⟨format, bits, hformat, hfloatFormat, hunsigned, hbits⟩ := exists_floatFormat hwidth
  have hnonneg : 0 ≤ register.width := by
    rcases hwidth with h | h <;> rw [h] <;> decide
  have hnumber : format.decode bits ≠ .nan := by
    intro hdecode
    refine hnan ?_
    rw [datum, hfloatFormat, hunsigned]
    show Except.ok (format.decode bits) = _
    rw [hdecode]
  have hwrite : register.writeFloat = .ok (format.writeBits floatStyle bits) := by
    rw [writeFloat, hfloatFormat, hunsigned]
    rfl
  have hcapable : register.isFloatCapable = true := by
    rw [isFloatCapable]
    rcases hwidth with h | h <;> rw [h] <;> rfl
  have hnote : register.floatNote options =
      .ok (", ".toList ++ format.writeBits floatStyle bits) := by
    rw [floatNote, if_pos ⟨hfloat, hcapable⟩, hwrite]
    rfl
  have hparse := FloatFormat.parse_writeBits hformat floatStyle hbits hnumber
  have hread := FloatFormat.readBits?_writeBits hformat floatStyle hbits hnumber
  obtain ⟨failed, digits, hnumeral⟩ := hparse options.radix
  refine ⟨format.writeBits floatStyle bits, bits, hunsigned, hwrite, ?_, hparse,
    outcome_readInput_float hnumeral hfloat hfloatFormat hread, ?_⟩
  · exact exists_summary hwidth hnote
  · exact datum_of_unsigned hnonneg hunsigned

/-- The negative number next to zero is shown and read with its sign, from a register that stores
another integer than it shows. -/
theorem reentered_writeFloat_subnormal :
    ((32 : Int) = 32 ∨ (32 : Int) = 64) ∧
      (Register.mk 32 (-2147483647)).datum = .ok (.finite true 1) ∧
      Reentered ⟨32, -2147483647⟩ ⟨.hex, false, true⟩ "-1.401298464324817e-45".toList
        2147483649 := by
  have hwidth : (32 : Int) = 32 ∨ (32 : Int) = 64 := Or.inl rfl
  have hdatum : (Register.mk 32 (-2147483647)).datum = .ok (.finite true 1) := by
    decide +kernel
  have hnan : (Register.mk 32 (-2147483647)).datum ≠ .ok .nan := by
    rw [hdatum]
    decide
  obtain ⟨text, bits, h⟩ :=
    reentered_writeFloat ⟨32, -2147483647⟩ hwidth hnan ⟨.hex, false, true⟩ rfl
  have htext : (Register.mk 32 (-2147483647)).writeFloat =
      .ok "-1.401298464324817e-45".toList := by
    decide +kernel
  have hbits : (Register.mk 32 (-2147483647)).unsigned? = .ok 2147483649 := by
    decide +kernel
  obtain rfl := Except.ok.inj (htext.symm.trans h.writeFloat_eq)
  obtain rfl := Except.ok.inj (hbits.symm.trans h.unsigned_eq)
  exact ⟨hwidth, hdatum, h⟩

end Register

end BitLayout
