import BitLayout.Proofs.Decimal.Literal
import BitLayout.Proofs.Numeral.Grammar

/-!
# The grammar of decimal literals

Which texts are finite numbers, and of which number exactly (`Literal.Spells`):
a sign, digits with a point among them or none, and a power of ten, each of
the parts as it may be typed. The number is told without the reader's own
arithmetic. The digits before and behind the point are counted in their
places, like the digits of a numeral, and the power is that of a rational
number.

The reader finds the parts by how far digits go, and puts all digits together
into one whole number. It reads what the grammar says and nothing else
(`Literal.spells_iff`).
-/

namespace BitLayout

namespace Decimal

open Numeral (DigitOf)

/-! ## The parts of a literal -/

/-- Digits, or none, and the number that they stand for in their places. -/
def Counted (digits : Text) (n : Nat) : Prop :=
  ∃ values, List.Forall₂ (DigitOf .dec) digits values ∧ n = Nat.ofDigits 10 values.reverse

inductive Sign : Text → Bool → Prop where
  | absent : Sign [] false
  | plus : Sign ['+'] false
  | minus : Sign ['-'] true

/-- Digits, with a point among them or without. The first digit behind the point counts tenths. -/
inductive Mantissa : Text → ℚ → Prop where
  | whole {digits : Text} {n : Nat} (hne : digits ≠ []) (h : Counted digits n) :
      Mantissa digits n
  | point {whole fraction : Text} {n m : Nat} (hne : whole ++ fraction ≠ [])
      (hwhole : Counted whole n) (hfraction : Counted fraction m) :
      Mantissa (whole ++ '.' :: fraction) (n + m / 10 ^ fraction.length)

/-- The exponent of ten; without one it is zero. -/
inductive Power : Text → Int → Prop where
  | absent : Power [] 0
  | present {mark : Char} {sign digits : Text} {negative : Bool} {n : Nat}
      (hmark : mark = 'e' ∨ mark = 'E') (hsign : Sign sign negative) (hne : digits ≠ [])
      (h : Counted digits n) :
      Power (mark :: (sign ++ digits)) (if negative then -n else n)

/-- A number without a sign. -/
inductive Unsigned : Text → ℚ → Prop where
  | mk {mantissa power : Text} {m : ℚ} {exponent : Int} (hmantissa : Mantissa mantissa m)
      (hpower : Power power exponent) : Unsigned (mantissa ++ power) (m * 10 ^ exponent)

/-- A text is a finite number, once it is made plain: whether it has a minus sign, and what stands
behind its sign. -/
def Literal.Spells (text : Text) (negative : Bool) (q : ℚ) : Prop :=
  ∃ sign body, Text.plainNumber? text = some (sign ++ body) ∧ Sign sign negative ∧ Unsigned body q

/-! ## Digits -/

theorem counted_iff {digits : Text} {n : Nat} :
    Counted digits n ↔ AllDigits digits ∧ n = Numeral.ofDigits .dec digits := by
  have hall : AllDigits digits ↔ ∃ values, List.Forall₂ (DigitOf .dec) digits values := by
    rw [← Numeral.all_isDigitOf_iff, List.all_eq_true, AllDigits]
    simp only [Numeral.isDigitOf_dec]
  rw [hall, Counted]
  constructor
  · rintro ⟨values, hvalues, hn⟩
    exact ⟨⟨values, hvalues⟩, hn.trans (Numeral.ofDigits_of_values hvalues).symm⟩
  · rintro ⟨⟨values, hvalues⟩, hn⟩
    exact ⟨values, hvalues, hn.trans (Numeral.ofDigits_of_values hvalues)⟩

/-- Digits are taken off a text as far as they go. -/
theorem exists_digits (text : Text) :
    ∃ digits rest, text = digits ++ rest ∧ AllDigits digits ∧ EndsDigits rest := by
  refine ⟨text.takeWhile Text.isAsciiDigit, text.dropWhile Text.isAsciiDigit,
    List.takeWhile_append_dropWhile.symm, fun c hc => List.mem_takeWhile_imp hc, ?_⟩
  intro c rest hrest
  have hhead := List.head?_dropWhile_not Text.isAsciiDigit text
  rw [hrest] at hhead
  exact hhead

/-- All digits as one whole number, and a power of ten for those behind the point. -/
theorem value_point (whole fraction : Text) (exponent : Int) :
    (⟨Numeral.ofDigits .dec (whole ++ fraction), exponent - fraction.length⟩ : Decimal).value =
      (Numeral.ofDigits .dec whole + Numeral.ofDigits .dec fraction / 10 ^ fraction.length) *
        10 ^ exponent := by
  have hbase : Radix.dec.base = 10 := rfl
  rw [value, Numeral.ofDigits_append, hbase, zpow_sub₀ (by norm_num), zpow_natCast]
  push_cast
  field_simp

/-! ## Signs and exponents -/

theorem exists_sign (text : Text) :
    ∃ sign, Sign sign (takeSign text).1 ∧ text = sign ++ (takeSign text).2 := by
  fun_cases takeSign text with
  | case1 rest => exact ⟨_, .minus, rfl⟩
  | case2 rest => exact ⟨_, .plus, rfl⟩
  | case3 => exact ⟨_, .absent, rfl⟩

theorem takeSign_append {sign : Text} {negative : Bool} (h : Sign sign negative) {c : Char}
    {rest : Text} (hc : c ∉ ['+', '-']) : takeSign (sign ++ c :: rest) = (negative, c :: rest) := by
  cases h with
  | absent => exact @takeSign_withSign false _ c rest rfl hc
  | plus => rfl
  | minus => rfl

/-- A number does not begin like a sign or a word. -/
theorem digit_plain {c : Char} (h : Text.isAsciiDigit c = true ∨ c = '.') :
    c ∉ ['+', '-'] ∧ c.toLower ∉ ['i', 'n'] := by
  have hall : ∀ c ∈ Text.numberAlphabet, Text.isAsciiDigit c = true ∨ c = '.' →
      c ∉ ['+', '-'] ∧ c.toLower ∉ ['i', 'n'] :=
    Text.mem_cases (by decide)
  refine hall c ?_ h
  rcases h with h | rfl
  · exact Text.mem_numberAlphabet h
  · decide

theorem readExponent?_eq_some_iff {tail : Text} {exponent : Int} :
    readExponent? tail = some exponent ↔ Power tail exponent := by
  constructor
  · intro h
    match tail with
    | [] =>
      obtain rfl := Option.some.inj h
      exact .absent
    | mark :: rest =>
      obtain ⟨sign, hsign, hrest⟩ := exists_sign rest
      rw [readExponent?] at h
      generalize takeSign rest = signed at *
      subst hrest
      split at h
      · next hmark =>
        dsimp only at h
        split at h
        · next hdigits =>
          obtain rfl := Option.some.inj h
          exact .present hmark hsign hdigits.1 (counted_iff.mpr ⟨List.all_eq_true.mp hdigits.2, rfl⟩)
        · cases h
      · cases h
  · intro h
    cases h with
    | absent => rfl
    | @present mark sign digits negative n hmark hsign hne h =>
      obtain ⟨hdigits, rfl⟩ := counted_iff.mp h
      obtain ⟨c, rest, rfl⟩ := List.exists_cons_of_ne_nil hne
      have hc := (digit_plain (Or.inl (hdigits c List.mem_cons_self))).1
      rw [readExponent?, if_pos hmark, takeSign_append hsign hc]
      exact if_pos ⟨hne, List.all_eq_true.mpr hdigits⟩

/-- An exponent is no part of the digits in front of it. -/
theorem Power.ends {tail : Text} {exponent : Int} (h : Power tail exponent) :
    EndsDigits tail ∧ tail.head? ≠ some '.' := by
  cases h with
  | absent => exact ⟨endsDigits_nil, nofun⟩
  | present hmark _ _ _ =>
    rcases hmark with rfl | rfl <;> exact ⟨endsDigits_cons (by decide) _, by simp⟩

/-! ## Numbers -/

theorem unsigned_of_readMagnitude? {text : Text} {d : Decimal} (h : readMagnitude? text = some d) :
    Unsigned text d.value := by
  obtain ⟨whole, rest, rfl, hwhole, hrest⟩ := exists_digits text
  by_cases hpoint : rest.head? = some '.'
  · obtain ⟨behind, rfl⟩ := List.head?_eq_some_iff.mp hpoint
    obtain ⟨fraction, tail, rfl, hfraction, htail⟩ := exists_digits behind
    have hne : whole ++ fraction ≠ [] := by
      intro hnil
      rw [readMagnitude?, spanDigits_append hwhole hrest] at h
      simp only [spanDigits_append hfraction htail, hnil, if_pos] at h
      cases h
    rw [readMagnitude?_point hne (hwhole.append hfraction) htail] at h
    obtain ⟨exponent, hexponent, rfl⟩ := Option.map_eq_some_iff.mp h
    have hmantissa := Mantissa.point hne (counted_iff.mpr ⟨hwhole, rfl⟩)
      (counted_iff.mpr ⟨hfraction, rfl⟩)
    rw [value_point]
    simpa using Unsigned.mk hmantissa (readExponent?_eq_some_iff.mp hexponent)
  · have hne : whole ≠ [] := by
      rintro rfl
      rw [readMagnitude?, spanDigits_append hwhole hrest] at h
      dsimp only at h
      split at h
      · exact hpoint rfl
      · simp at h
    rw [readMagnitude?_whole hne hwhole hrest hpoint] at h
    obtain ⟨exponent, hexponent, rfl⟩ := Option.map_eq_some_iff.mp h
    exact .mk (.whole hne (counted_iff.mpr ⟨hwhole, rfl⟩)) (readExponent?_eq_some_iff.mp hexponent)

theorem Unsigned.exists_readMagnitude? {text : Text} {q : ℚ} (h : Unsigned text q) :
    ∃ d, readMagnitude? text = some d ∧ d.value = q := by
  obtain ⟨hmantissa, hpower⟩ := h
  obtain ⟨hends, hpoint⟩ := hpower.ends
  have hexponent := readExponent?_eq_some_iff.mpr hpower
  cases hmantissa with
  | whole hne hcounted =>
    obtain ⟨hdigits, rfl⟩ := counted_iff.mp hcounted
    rw [readMagnitude?_whole hne hdigits hends hpoint, hexponent]
    exact ⟨_, rfl, rfl⟩
  | point hne hcounted hbehind =>
    obtain ⟨hwhole, rfl⟩ := counted_iff.mp hcounted
    obtain ⟨hfraction, rfl⟩ := counted_iff.mp hbehind
    rw [List.append_assoc, List.cons_append,
      readMagnitude?_point hne (hwhole.append hfraction) hends, hexponent]
    exact ⟨_, rfl, value_point _ _ _⟩

/-- A number begins with a digit, or with a point. -/
theorem Unsigned.exists_cons {text : Text} {q : ℚ} (h : Unsigned text q) :
    ∃ c rest, text = c :: rest ∧ (Text.isAsciiDigit c = true ∨ c = '.') := by
  obtain ⟨hmantissa, -⟩ := h
  have hfront : ∀ {digits : Text} {n : Nat}, digits ≠ [] → Counted digits n → ∀ tail,
      ∃ c rest, digits ++ tail = c :: rest ∧ (Text.isAsciiDigit c = true ∨ c = '.') := by
    intro digits n hne hcounted tail
    obtain ⟨c, rest, rfl⟩ := List.exists_cons_of_ne_nil hne
    exact ⟨c, rest ++ tail, rfl, Or.inl ((counted_iff.mp hcounted).1 c List.mem_cons_self)⟩
  cases hmantissa with
  | whole hne hcounted => exact hfront hne hcounted _
  | @point whole fraction _ _ _ hcounted _ =>
    rw [List.append_assoc]
    by_cases hne : whole = []
    · subst hne
      exact ⟨'.', _, rfl, Or.inr rfl⟩
    · exact hfront hne hcounted _

namespace Literal

/-- **The reader of literals follows the grammar.** -/
theorem spells_iff {text : Text} {negative : Bool} {q : ℚ} :
    Spells text negative q ↔ ∃ d, read? text = some (.finite negative d) ∧ d.value = q := by
  constructor
  · rintro ⟨sign, body, hplain, hsign, h⟩
    obtain ⟨c, rest, rfl, hc⟩ := h.exists_cons
    obtain ⟨hnone, hword⟩ := digit_plain hc
    obtain ⟨d, hread, hvalue⟩ := h.exists_readMagnitude?
    refine ⟨d, ?_, hvalue⟩
    rw [read?_of_body hplain (takeSign_append hsign hnone) hword, hread, Option.map_some]
  · rintro ⟨d, hread, rfl⟩
    rw [read?] at hread
    obtain ⟨plain, hplain, hread⟩ := Option.bind_eq_some_iff.mp hread
    obtain ⟨sign, hsign, hbody⟩ := exists_sign plain
    generalize takeSign plain = signed at *
    dsimp only at hread
    split at hread
    · cases hread
    · split at hread
      · cases hread
      · obtain ⟨magnitude, hmagnitude, heq⟩ := Option.bind_eq_some_iff.mp hread
        cases heq
        exact ⟨sign, signed.2, hplain.trans (congrArg some hbody), hsign,
          unsigned_of_readMagnitude? hmagnitude⟩

/-- A text is one number only. -/
theorem Spells.unique {text : Text} {negative other : Bool} {q r : ℚ}
    (h : Spells text negative q) (h' : Spells text other r) : negative = other ∧ q = r := by
  obtain ⟨d, hread, rfl⟩ := spells_iff.mp h
  obtain ⟨d', hread', rfl⟩ := spells_iff.mp h'
  cases hread.symm.trans hread'
  exact ⟨rfl, rfl⟩

end Literal

end Decimal

end BitLayout
