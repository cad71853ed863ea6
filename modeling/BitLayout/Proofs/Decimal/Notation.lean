import BitLayout.Decimal.Notation
import BitLayout.Proofs.Float.Decimal

/-!
# Written decimals

A positive decimal is written in one of two notations: with digits on both
sides of a point, or with an exponent behind its digits. `Spelled` describes
the texts of both notations together with the decimals they are read as,
and the two directions meet there: a decimal of any digits and exponent is
written as such a text, for a decimal of the same number (`spelled_write`),
and such a text is read as its decimal (`Spelled.readMagnitude?_eq`).

A number written like this is never taken for a numeral of whole numbers. A
point, a sign in front of an exponent and the letters of infinity are no
digits in any radix, and no mark either (`Numeral.parse_of_mem`).
-/

namespace BitLayout

namespace Numeral

theorem ofDigits_append (radix : Radix) (front back : Text) :
    ofDigits radix (front ++ back) =
      ofDigits radix front * radix.base ^ back.length + ofDigits radix back := by
  have hlast : ∀ (text : Text) (c : Char), ofDigits radix (text ++ [c]) =
      radix.base * ofDigits radix text + (digitValue? c).getD 0 := by
    intro text c
    rw [ofDigits, List.foldl_append]
    rfl
  induction back using List.reverseRecOn with
  | nil => rw [List.append_nil, List.length_nil, Nat.pow_zero, Nat.mul_one]; rfl
  | append_singleton back c ih =>
    rw [← List.append_assoc, hlast, hlast, ih, List.length_append, List.length_singleton,
      Nat.pow_succ]
    ring

theorem ofDigits_zeros (radix : Radix) (count : Nat) :
    ofDigits radix (List.replicate count '0') = 0 := by
  induction count with
  | zero => rfl
  | succ count ih => exact ih

theorem ofDigits_append_zeros (radix : Radix) (front : Text) (count : Nat) :
    ofDigits radix (front ++ List.replicate count '0') =
      ofDigits radix front * radix.base ^ count := by
  rw [ofDigits_append, ofDigits_zeros, List.length_replicate, Nat.add_zero]

theorem ofDigits_zeros_append (radix : Radix) (count : Nat) (back : Text) :
    ofDigits radix (List.replicate count '0' ++ back) = ofDigits radix back := by
  rw [ofDigits_append, ofDigits_zeros, Nat.zero_mul, Nat.zero_add]

end Numeral

namespace Decimal

/-! ## The grammar of written decimals -/

/-- There is nothing but digits. -/
def AllDigits (text : Text) : Prop :=
  ∀ c ∈ text, Text.isAsciiDigit c = true

theorem allDigits_append {front back : Text} :
    AllDigits (front ++ back) ↔ AllDigits front ∧ AllDigits back :=
  List.forall_mem_append

theorem AllDigits.append {front back : Text} (hfront : AllDigits front) (hback : AllDigits back) :
    AllDigits (front ++ back) :=
  allDigits_append.mpr ⟨hfront, hback⟩

theorem allDigits_zeros (count : Nat) : AllDigits (List.replicate count '0') := by
  intro c hc
  rw [List.eq_of_mem_replicate hc]
  decide

/-- The texts of unsigned decimals in both notations, with what they are read as. -/
inductive Spelled : Text → Decimal → Prop where
  | positional {whole fraction : Text} (hwhole : whole ≠ [])
      (hdigits : AllDigits (whole ++ fraction)) :
      Spelled (whole ++ '.' :: fraction)
        ⟨Numeral.ofDigits .dec (whole ++ fraction), -fraction.length⟩
  | scientific {whole fraction mantissa power : Text} {exponent : Int} (hwhole : whole ≠ [])
      (hdigits : AllDigits (whole ++ fraction))
      (hmantissa : mantissa = whole ∧ fraction = [] ∨ mantissa = whole ++ '.' :: fraction)
      (hpower : power ≠ [] ∧ AllDigits power)
      (hexponent : Numeral.ofDigits .dec power = exponent.natAbs) :
      Spelled (mantissa ++ 'e' :: (if exponent < 0 then '-' else '+') :: power)
        ⟨Numeral.ofDigits .dec (whole ++ fraction), exponent - fraction.length⟩

namespace Spelled

variable {text : Text} {d : Decimal}

/-- The text begins with a digit. -/
theorem exists_cons (h : Spelled text d) :
    ∃ c rest, text = c :: rest ∧ Text.isAsciiDigit c = true := by
  have hfront : ∀ {whole fraction : Text}, whole ≠ [] → AllDigits (whole ++ fraction) →
      ∀ tail, ∃ c rest, whole ++ tail = c :: rest ∧ Text.isAsciiDigit c = true := by
    intro whole fraction hwhole hdigits tail
    obtain ⟨c, rest, rfl⟩ := List.exists_cons_of_ne_nil hwhole
    exact ⟨c, rest ++ tail, rfl, hdigits c List.mem_cons_self⟩
  cases h with
  | positional hwhole hdigits => exact hfront hwhole hdigits _
  | scientific hwhole hdigits hmantissa _ _ =>
    rcases hmantissa with ⟨rfl, -⟩ | rfl
    · exact hfront hwhole hdigits _
    · rw [List.append_assoc]
      exact hfront hwhole hdigits _

/-- The characters that are no digits. -/
theorem mem (h : Spelled text d) {c : Char} (hc : c ∈ text) :
    Text.isAsciiDigit c = true ∨ c ∈ ['.', 'e', '+', '-'] := by
  cases h with
  | positional hwhole hdigits =>
    obtain ⟨hw, hf⟩ := allDigits_append.mp hdigits
    rcases List.mem_append.mp hc with hc | hc
    · exact Or.inl (hw c hc)
    · rcases List.mem_cons.mp hc with rfl | hc
      · exact Or.inr (by decide)
      · exact Or.inl (hf c hc)
  | @scientific whole fraction mantissa power exponent hwhole hdigits hmantissa hpower _ =>
    obtain ⟨hw, hf⟩ := allDigits_append.mp hdigits
    rcases List.mem_append.mp hc with hc | hc
    · rcases hmantissa with ⟨rfl, -⟩ | rfl
      · exact Or.inl (hw c hc)
      · rcases List.mem_append.mp hc with hc | hc
        · exact Or.inl (hw c hc)
        · rcases List.mem_cons.mp hc with rfl | hc
          · exact Or.inr (by decide)
          · exact Or.inl (hf c hc)
    · rcases List.mem_cons.mp hc with rfl | hc
      · exact Or.inr (by decide)
      · rcases List.mem_cons.mp hc with rfl | hc
        · split <;> exact Or.inr (by decide)
        · exact Or.inl (hpower.2 c hc)

/-- There is a point, or the sign of an exponent. -/
theorem exists_mem (h : Spelled text d) : ∃ c ∈ text, c ∈ ['.', '+', '-'] := by
  cases h with
  | positional _ _ =>
    exact ⟨'.', List.mem_append_right _ List.mem_cons_self, by decide⟩
  | scientific _ _ _ _ _ =>
    refine ⟨_, List.mem_append_right _ (List.mem_cons_of_mem _ List.mem_cons_self), ?_⟩
    split <;> decide

end Spelled

/-! ## Reading -/

/-- What follows is no digit. -/
def EndsDigits (tail : Text) : Prop :=
  ∀ c rest, tail = c :: rest → Text.isAsciiDigit c = false

theorem endsDigits_nil : EndsDigits [] :=
  fun _ _ h => nomatch h

theorem endsDigits_cons {c : Char} (h : Text.isAsciiDigit c = false) (rest : Text) :
    EndsDigits (c :: rest) := by
  rintro d tail heq
  rwa [← (List.cons.inj heq).1]

theorem spanDigits_append {front tail : Text} (hfront : AllDigits front) (htail : EndsDigits tail) :
    spanDigits (front ++ tail) = (front, tail) := by
  rw [spanDigits, List.takeWhile_append_of_pos hfront, List.dropWhile_append_of_pos hfront]
  cases tail with
  | nil => rw [List.takeWhile_nil, List.dropWhile_nil, List.append_nil]
  | cons c rest =>
    have hnot : ¬ Text.isAsciiDigit c = true := by
      rw [htail c rest rfl]
      exact Bool.false_ne_true
    rw [List.takeWhile_cons_of_neg hnot, List.dropWhile_cons_of_neg hnot, List.append_nil]

theorem readExponent?_scientific {power : Text} {exponent : Int}
    (hpower : power ≠ [] ∧ AllDigits power)
    (hexponent : Numeral.ofDigits .dec power = exponent.natAbs) :
    readExponent? ('e' :: (if exponent < 0 then '-' else '+') :: power) = some exponent := by
  have hall : power ≠ [] ∧ power.all Text.isAsciiDigit = true :=
    ⟨hpower.1, List.all_eq_true.mpr hpower.2⟩
  rw [readExponent?, if_pos (Or.inl rfl)]
  split
  · rw [takeSign]
    dsimp only
    rw [if_pos hall, if_pos rfl, hexponent]
    congr 1
    omega
  · rw [takeSign]
    dsimp only
    rw [if_pos hall, if_neg Bool.false_ne_true, hexponent]
    congr 1
    omega

/-- A text with a point, up to its exponent. -/
theorem readMagnitude?_point {whole fraction tail : Text} (hne : whole ++ fraction ≠ [])
    (hdigits : AllDigits (whole ++ fraction)) (htail : EndsDigits tail) :
    readMagnitude? (whole ++ '.' :: (fraction ++ tail)) =
      (readExponent? tail).map fun exponent =>
        ⟨Numeral.ofDigits .dec (whole ++ fraction), exponent - fraction.length⟩ := by
  obtain ⟨hwhole, hfraction⟩ := allDigits_append.mp hdigits
  rw [readMagnitude?, spanDigits_append hwhole (endsDigits_cons (by decide) _)]
  simp only [spanDigits_append hfraction htail]
  rw [if_neg hne]

/-- A text without a point, up to its exponent. -/
theorem readMagnitude?_whole {whole tail : Text} (hwhole : whole ≠ [])
    (hdigits : AllDigits whole) (htail : EndsDigits tail) (hpoint : tail.head? ≠ some '.') :
    readMagnitude? (whole ++ tail) =
      (readExponent? tail).map fun exponent => ⟨Numeral.ofDigits .dec whole, exponent⟩ := by
  rw [readMagnitude?, spanDigits_append hdigits htail]
  dsimp only
  split
  · exact absurd rfl hpoint
  · simp [hwhole]

theorem Spelled.readMagnitude?_eq {text : Text} {d : Decimal} (h : Spelled text d) :
    readMagnitude? text = some d := by
  cases h with
  | @positional whole fraction hwhole hdigits =>
    have hread := readMagnitude?_point (List.append_ne_nil_of_left_ne_nil hwhole fraction) hdigits
      endsDigits_nil
    rw [List.append_nil] at hread
    rw [hread, readExponent?, Option.map_some, Int.zero_sub]
  | @scientific whole fraction mantissa power exponent hwhole hdigits hmantissa hpower hexponent =>
    have hread := readExponent?_scientific hpower hexponent
    rcases hmantissa with ⟨rfl, rfl⟩ | rfl
    · rw [List.append_nil] at hdigits ⊢
      rw [readMagnitude?_whole hwhole hdigits (endsDigits_cons (by decide) _) (by simp), hread,
        Option.map_some, List.length_nil, Int.natCast_zero, Int.sub_zero]
    · have hne := List.append_ne_nil_of_left_ne_nil hwhole fraction
      rw [List.append_assoc, List.cons_append,
        readMagnitude?_point hne hdigits (endsDigits_cons (by decide) _), hread, Option.map_some]

/-! ## Writing -/

/-- What the digits without the zeros at the end are to a number. -/
theorem exists_significant (d : Decimal) :
    ∃ zeros, Numeral.digits .dec d.digits = d.significant ++ List.replicate zeros '0' := by
  let back := (Numeral.digits .dec d.digits).reverse
  refine ⟨(back.takeWhile (· = '0')).length, ?_⟩
  have hzeros : back.takeWhile (· = '0') =
      List.replicate (back.takeWhile (· = '0')).length '0' := by
    refine List.eq_replicate_iff.mpr ⟨rfl, fun c hc => ?_⟩
    exact of_decide_eq_true (List.all_eq_true.mp List.all_takeWhile c hc)
  rw [significant, ← List.reverse_replicate, ← hzeros, ← List.reverse_append,
    List.takeWhile_append_dropWhile, List.reverse_reverse]

theorem allDigits_significant (d : Decimal) : AllDigits d.significant := by
  obtain ⟨zeros, hzeros⟩ := exists_significant d
  have hall : AllDigits (d.significant ++ List.replicate zeros '0') := by
    rw [← hzeros]
    exact fun c => Numeral.isAsciiDigit_digits
  exact (allDigits_append.mp hall).1

theorem significant_ne_nil {d : Decimal} (h : d.digits ≠ 0) : d.significant ≠ [] := by
  intro hnil
  obtain ⟨zeros, hzeros⟩ := exists_significant d
  refine h ?_
  rw [← Numeral.ofDigits_digits .dec d.digits, hzeros, hnil, List.nil_append,
    Numeral.ofDigits_zeros]

theorem same_append_zeros (digits : Text) (zeros : Nat) (exponent : Int) :
    Same ⟨Numeral.ofDigits .dec (digits ++ List.replicate zeros '0'), exponent⟩
      ⟨Numeral.ofDigits .dec digits, exponent + zeros⟩ := by
  rw [Numeral.ofDigits_append_zeros]
  exact same_mul_pow _ zeros exponent

/-- The digits are counted from the leading one. -/
theorem same_significant (d : Decimal) :
    Same ⟨Numeral.ofDigits .dec d.significant, d.leadingExponent + 1 - d.significant.length⟩ d := by
  obtain ⟨zeros, hzeros⟩ := exists_significant d
  have hsame := (same_append_zeros d.significant zeros d.exponent).symm
  rw [← hzeros, Numeral.ofDigits_digits] at hsame
  have hlength := congrArg List.length hzeros
  rw [List.length_append, List.length_replicate] at hlength
  have hexponent : d.leadingExponent + 1 - d.significant.length = d.exponent + zeros := by
    rw [leadingExponent, hlength]
    push_cast
    ring
  rwa [hexponent]

theorem spelled_positional {digits : Text} (hne : digits ≠ []) (hdigits : AllDigits digits)
    (exponent : Int) : ∃ d, Spelled (positional digits exponent) d ∧
      d.Same ⟨Numeral.ofDigits .dec digits, exponent + 1 - digits.length⟩ := by
  cases exponent with
  | ofNat e =>
    rw [positional]
    split
    · next hle =>
      -- Zeros fill the room up to the point, and one is behind it.
      obtain ⟨zeros, hzeros⟩ := Nat.exists_eq_add_of_le hle
      rw [show e + 1 - digits.length = zeros by omega]
      have hfilled : AllDigits (digits ++ List.replicate zeros '0' ++ ['0']) :=
        (hdigits.append (allDigits_zeros zeros)).append (allDigits_zeros 1)
      refine ⟨_, Spelled.positional (by simp [hne]) hfilled, ?_⟩
      have hexponent : Int.ofNat e + 1 - digits.length = -1 + (zeros + 1 : Nat) := by
        rw [Int.ofNat_eq_natCast]
        omega
      rw [List.append_assoc, ← List.replicate_succ', hexponent]
      exact same_append_zeros digits (zeros + 1) (-1)
    · next hlt =>
      have hcut := List.take_append_drop (e + 1) digits
      have hspelled := @Spelled.positional (digits.take (e + 1)) (digits.drop (e + 1))
        (by simp [hne]) (by rwa [hcut])
      rw [hcut] at hspelled
      refine ⟨_, hspelled, ?_⟩
      have hexponent : Int.ofNat e + 1 - digits.length = -(digits.drop (e + 1)).length := by
        rw [List.length_drop, Int.ofNat_eq_natCast]
        omega
      rw [hexponent]
      exact Same.refl _
  | negSucc e =>
    have hfraction := (allDigits_zeros e).append hdigits
    refine ⟨_, @Spelled.positional ['0'] (List.replicate e '0' ++ digits) (by decide)
      ((allDigits_zeros 1).append hfraction), ?_⟩
    have hexponent : Int.negSucc e + 1 - digits.length =
        -(List.replicate e '0' ++ digits).length := by
      rw [List.length_append, List.length_replicate, Int.negSucc_eq]
      omega
    rw [hexponent, ← List.append_assoc, ← List.replicate_one, List.replicate_append_replicate,
      Numeral.ofDigits_zeros_append]
    exact Same.refl _

/-- The digits of an exponent, with zeros in front as the style wants them. -/
theorem power_digits (style : Style) (exponent : Int) :
    let power := (Numeral.digits .dec exponent.natAbs).leftpad style.exponentDigits '0'
    (power ≠ [] ∧ AllDigits power) ∧ Numeral.ofDigits .dec power = exponent.natAbs := by
  refine ⟨⟨List.append_ne_nil_of_right_ne_nil _ Nat.toDigits_ne_nil, ?_⟩, ?_⟩
  · exact (allDigits_zeros _).append fun c => Numeral.isAsciiDigit_digits
  · rw [List.leftpad, Numeral.ofDigits_zeros_append, Numeral.ofDigits_digits]

theorem spelled_scientific (style : Style) {digits : Text} (hne : digits ≠ [])
    (hdigits : AllDigits digits) (exponent : Int) :
    Spelled (scientific style digits exponent)
      ⟨Numeral.ofDigits .dec digits, exponent + 1 - digits.length⟩ := by
  obtain ⟨hpower, hexponent⟩ := power_digits style exponent
  obtain ⟨leading, others, rfl⟩ := List.exists_cons_of_ne_nil hne
  -- Only a digit that has others behind it has a point behind it.
  have hmantissa : ∃ mantissa, (mantissa = [leading] ∧ others = [] ∨
      mantissa = [leading] ++ '.' :: others) ∧ scientific style (leading :: others) exponent =
        mantissa ++ 'e' :: (if exponent < 0 then '-' else '+') ::
          (Numeral.digits .dec exponent.natAbs).leftpad style.exponentDigits '0' := by
    cases others with
    | nil => exact ⟨[leading], Or.inl ⟨rfl, rfl⟩, rfl⟩
    | cons c others => exact ⟨_, Or.inr rfl, rfl⟩
  obtain ⟨mantissa, hmantissa, htext⟩ := hmantissa
  have hspelled :=
    Spelled.scientific (List.cons_ne_nil leading []) hdigits hmantissa hpower hexponent
  have hlength : exponent + 1 - (leading :: others).length = exponent - others.length := by
    rw [List.length_cons]
    omega
  rwa [htext, hlength]

/-- What is written is a text of the same number. -/
theorem spelled_write (style : Style) (d : Decimal) :
    ∃ other, Spelled (write style d) other ∧ other.Same d := by
  rw [write]
  split
  · next hzero =>
    refine ⟨⟨0, -1⟩, @Spelled.positional ['0'] ['0'] (by decide) (allDigits_zeros 2), ?_⟩
    obtain ⟨digits, exponent⟩ := d
    obtain rfl : digits = 0 := hzero
    exact same_zero _ _
  · next hpos =>
    have hne := significant_ne_nil hpos
    have hdigits := allDigits_significant d
    dsimp only
    split
    · obtain ⟨other, hother, hsame⟩ := spelled_positional hne hdigits d.leadingExponent
      exact ⟨other, hother, hsame.trans (same_significant d)⟩
    · exact ⟨_, spelled_scientific style hne hdigits d.leadingExponent, same_significant d⟩

end Decimal

end BitLayout
