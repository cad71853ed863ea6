import BitLayout.Numeral
import BitLayout.Proofs.Text.Trim

/-!
# Numerals are read back

What `Numeral.render` writes, `Numeral.read` reads as the same number. A
mark names its radix whatever the reader was asked for; only decimal has
none, so it is read back by a reader of decimal numerals
(`read_render`). The one place where a mark could be mistaken is the zero
of an octal numeral, which is no mark in a decimal one because a decimal
numeral has no zero in front of another digit (`digits_eq_cons`).

Only decimal numerals can be too long, and they are so from a power of ten
on (`long_dec_iff`).
-/

namespace BitLayout

theorem Radix.base_le (radix : Radix) : radix.base ≤ 16 := by
  cases radix <;> decide

/-- A digit of any script that is an ASCII character is one of the ten. -/
theorem Text.isAsciiDigit_eq (c : Char) :
    Text.isAsciiDigit c = (decide (c.toNat < 128) && Text.isDigit c) := by
  by_cases hc : c.toNat < 128
  · refine Text.ascii_cases (P := fun c =>
      Text.isAsciiDigit c = (decide (c.toNat < 128) && Text.isDigit c)) ?_ hc
    decide +kernel
  · rw [decide_eq_false hc, Bool.false_and, Bool.eq_false_iff]
    intro hdigit
    have hle : c.toNat ≤ 57 := of_decide_eq_true (Bool.and_eq_true_iff.mp hdigit).2
    omega

theorem Radix.mem_bases_iff {base : Int} :
    base ∈ [2, 8, 10, 16] ↔ ∃ radix : Radix, base = radix.base := by
  constructor
  · intro h
    simp only [List.mem_cons, List.not_mem_nil, or_false] at h
    rcases h with rfl | rfl | rfl | rfl
    · exact ⟨.bin, rfl⟩
    · exact ⟨.oct, rfl⟩
    · exact ⟨.dec, rfl⟩
    · exact ⟨.hex, rfl⟩
  · rintro ⟨radix, rfl⟩
    cases radix <;> simp [base]

theorem Radix.ofBase_base (radix : Radix) : Radix.ofBase radix.base = .ok radix := by
  rw [Radix.ofBase, Radix.ofBase?_eq_some_iff.mpr rfl]

theorem mapError_eq_ok_iff {ε ε' α : Type} {f : ε → ε'} {result : Except ε α} {value : α} :
    result.mapError f = .ok value ↔ result = .ok value := by
  cases result <;> simp [Except.mapError]

theorem map_eq_ok_iff {ε α β : Type} {f : α → β} {result : Except ε α} {value : β} :
    result.map f = .ok value ↔ ∃ answer, result = .ok answer ∧ f answer = value := by
  cases result <;> simp [Except.map]

theorem map_eq_error_iff {ε α β : Type} {f : α → β} {result : Except ε α} {e : ε} :
    result.map f = .error e ↔ result = .error e := by
  cases result <;> simp [Except.map]

theorem exists_of_mapError {ε ε' α : Type} {f : ε → ε'} {result : Except ε α} {e : ε'}
    (h : result.mapError f = .error e) : ∃ cause, f cause = e := by
  cases result with
  | ok answer => cases h
  | error cause =>
    cases h
    exact ⟨cause, rfl⟩

namespace Numeral

/-- What is no numeral is refused with the text that is left without white space around it. -/
theorem badDigits_of_read {radix : Radix} {text : Text} {e : NumeralError}
    (h : read radix text = .error (.refused e)) : ∃ used, .badDigits used (Text.trim text) = e := by
  obtain ⟨cause, hcause⟩ := exists_of_mapError h
  cases cause with
  | refused used => exact ⟨used, Failure.refused.inj hcause⟩
  | tooLong => cases hcause

theorem parse_base (text : Text) (radix : Radix) : parse text radix.base = read radix text := by
  rw [parse, Radix.ofBase_base]
  rfl

theorem format_base (value : Int) (radix : Radix) :
    format value radix.base =
      if Long radix value then .error .tooLong else .ok (render radix value) := by
  rw [format, Radix.ofBase_base]
  show (if Long radix value then _ else _ : Except (Failure NumeralError) Text) = _
  split <;> rfl

/-! ## Digits -/

theorem digits_of_lt {radix : Radix} {n : Nat} (h : n < radix.base) :
    digits radix n = [Nat.digitChar n] :=
  Nat.toDigits_of_lt_base h

theorem digits_of_le {radix : Radix} {n : Nat} (h : radix.base ≤ n) :
    digits radix n = digits radix (n / radix.base) ++ [Nat.digitChar (n % radix.base)] :=
  Nat.toDigits_of_base_le radix.one_lt_base h

/-- Facts about the digits of a number are proved digit by digit, from the
front one on. -/
theorem digits_induction {radix : Radix} {P : Nat → Text → Prop}
    (single : ∀ n, n < radix.base → P n [Nat.digitChar n])
    (more : ∀ n front, radix.base ≤ n → P (n / radix.base) front →
      P n (front ++ [Nat.digitChar (n % radix.base)])) (n : Nat) : P n (digits radix n) := by
  induction n using Nat.strongRecOn with
  | ind n ih =>
    rcases Nat.lt_or_ge n radix.base with h | h
    · rw [digits_of_lt h]
      exact single n h
    · rw [digits_of_le h]
      have hbase := radix.one_lt_base
      exact more n _ h (ih _ (Nat.div_lt_self (by omega) hbase))

theorem digitValue?_digitChar {d : Nat} (h : d < 16) : digitValue? (Nat.digitChar d) = some d := by
  have hall : ∀ d < 16, digitValue? (Nat.digitChar d) = some d := by decide
  exact hall d h

theorem digitValue?_of_not_ascii {c : Char} (h : ¬ c.toNat < 128) : digitValue? c = none := by
  have hle : ∀ d : Char, d.toNat < 128 → ¬ c ≤ d := fun d hd hcd =>
    h (Nat.lt_of_le_of_lt (show c.toNat ≤ d.toNat from hcd) hd)
  rw [digitValue?, if_neg (fun hc => hle '9' (by decide) hc.2),
    if_neg (fun hc => hle 'f' (by decide) hc.2), if_neg (fun hc => hle 'F' (by decide) hc.2)]

theorem isDigitOf_dec (c : Char) : isDigitOf .dec c = Text.isAsciiDigit c := by
  by_cases hc : c.toNat < 128
  · exact Text.ascii_cases (P := fun c => isDigitOf .dec c = Text.isAsciiDigit c) (by decide) hc
  · rw [Text.isAsciiDigit_eq, decide_eq_false hc, isDigitOf, digitValue?_of_not_ascii hc]
    rfl

theorem isDigitOf_digitChar {radix : Radix} {d : Nat} (h : d < radix.base) :
    isDigitOf radix (Nat.digitChar d) = true := by
  rw [isDigitOf, digitValue?_digitChar (Nat.lt_of_lt_of_le h radix.base_le)]
  exact decide_eq_true h

theorem ofDigits_append_digit (radix : Radix) (front : Text) {d : Nat} (h : d < 16) :
    ofDigits radix (front ++ [Nat.digitChar d]) = radix.base * ofDigits radix front + d := by
  rw [ofDigits, List.foldl_append, List.foldl_cons, List.foldl_nil, digitValue?_digitChar h]
  rfl

theorem ofDigits_digits (radix : Radix) (n : Nat) : ofDigits radix (digits radix n) = n := by
  refine digits_induction (P := fun n text => ofDigits radix text = n) (fun n h => ?_)
    (fun n front h hfront => ?_) n
  · have hdigit := ofDigits_append_digit radix [] (Nat.lt_of_lt_of_le h radix.base_le)
    rw [List.nil_append] at hdigit
    rw [hdigit]
    show radix.base * 0 + n = n
    rw [Nat.mul_zero, Nat.zero_add]
  · have hpos := radix.one_lt_base
    have hlt := Nat.lt_of_lt_of_le (Nat.mod_lt n (by omega)) radix.base_le
    rw [ofDigits_append_digit radix front hlt, hfront, Nat.div_add_mod]

theorem mem_digits {radix : Radix} {n : Nat} {c : Char} (h : c ∈ digits radix n) :
    ∃ d < radix.base, c = Nat.digitChar d := by
  revert h
  have hbase := radix.one_lt_base
  refine digits_induction (P := fun _ text => c ∈ text → ∃ d < radix.base, c = Nat.digitChar d)
    (fun n h hc => ?_) (fun n front h hfront hc => ?_) n
  · exact ⟨n, h, List.mem_singleton.mp hc⟩
  · rcases List.mem_append.mp hc with hc | hc
    · exact hfront hc
    · exact ⟨n % radix.base, Nat.mod_lt n (by omega), List.mem_singleton.mp hc⟩

/-- The digits of a count are ASCII digits. -/
theorem isAsciiDigit_digits {n : Nat} {c : Char} (h : c ∈ digits .dec n) :
    Text.isAsciiDigit c = true := by
  have hall : ∀ d < 10, Text.isAsciiDigit (Nat.digitChar d) = true := by decide
  obtain ⟨d, hd, rfl⟩ := mem_digits h
  exact hall d hd

theorem exists_digits (radix : Radix) (n : Nat) :
    ∃ d rest, d < radix.base ∧ digits radix n = Nat.digitChar d :: rest := by
  obtain ⟨c, rest, hdigits⟩ := List.exists_cons_of_ne_nil
    (show digits radix n ≠ [] from Nat.toDigits_ne_nil)
  have hmem : c ∈ digits radix n := by
    rw [hdigits]
    exact List.mem_cons_self
  obtain ⟨d, hd, rfl⟩ := mem_digits hmem
  exact ⟨d, rest, hd, hdigits⟩

theorem all_digits (radix : Radix) (n : Nat) :
    (digits radix n).all (isDigitOf radix) = true := by
  refine List.all_eq_true.mpr fun c hc => ?_
  obtain ⟨d, hd, rfl⟩ := mem_digits hc
  exact isDigitOf_digitChar hd

theorem ofDigits?_digits (radix : Radix) (n : Nat) : ofDigits? radix (digits radix n) = some n := by
  rw [ofDigits?, if_pos ⟨Nat.toDigits_ne_nil, all_digits radix n⟩, ofDigits_digits]

theorem head_digits (radix : Radix) {n : Nat} (hn : n ≠ 0) :
    ∃ c rest, digits radix n = c :: rest ∧ c ≠ '0' := by
  revert hn
  refine digits_induction (P := fun n text => n ≠ 0 → ∃ c rest, text = c :: rest ∧ c ≠ '0')
    (fun n h hn => ?_) (fun n front h hfront _ => ?_) n
  · have hall : ∀ d < 16, d ≠ 0 → Nat.digitChar d ≠ '0' := by decide
    exact ⟨_, [], rfl, hall n (Nat.lt_of_lt_of_le h radix.base_le) hn⟩
  · have hpos : 0 < n / radix.base :=
      Nat.div_pos h (Nat.lt_trans Nat.zero_lt_one radix.one_lt_base)
    obtain ⟨c, rest, rfl, hc⟩ := hfront (Nat.ne_of_gt hpos)
    exact ⟨c, _, rfl, hc⟩

/-- A zero stands in front of the digits only for the number zero. -/
theorem digits_eq_cons {radix : Radix} {n : Nat} {rest : Text}
    (h : digits radix n = '0' :: rest) : rest = [] := by
  rcases Nat.eq_zero_or_pos n with rfl | hpos
  · rw [digits, Nat.toDigits_zero] at h
    exact (List.cons.inj h).2.symm
  · obtain ⟨c, tail, hdigits, hc⟩ := head_digits radix (Nat.ne_of_gt hpos)
    rw [hdigits] at h
    exact absurd (List.cons.inj h).1 hc

/-! ## Length -/

theorem length_digits_pos (radix : Radix) (n : Nat) : 0 < (digits radix n).length :=
  List.length_pos_iff.mpr Nat.toDigits_ne_nil

/-- How many digits a number has tells between which powers of the base it lies. -/
theorem lt_length_digits_iff (radix : Radix) {count : Nat} (hcount : 1 ≤ count) (n : Nat) :
    count < (digits radix n).length ↔ radix.base ^ count ≤ n := by
  have hbase := radix.one_lt_base
  induction count, hcount using Nat.le_induction generalizing n with
  | base =>
    rw [Nat.pow_one]
    rcases Nat.lt_or_ge n radix.base with h | h
    · rw [digits_of_lt h]
      exact iff_of_false (Nat.lt_irrefl 1) (Nat.not_le.mpr h)
    · rw [digits_of_le h, List.length_append]
      exact iff_of_true (Nat.lt_add_of_pos_left (length_digits_pos radix _)) h
  | succ count hcount ih =>
    rcases Nat.lt_or_ge n radix.base with h | h
    · have hpow : n < radix.base ^ (count + 1) :=
        Nat.lt_of_lt_of_le h (Nat.le_self_pow (Nat.succ_ne_zero _) _)
      rw [digits_of_lt h]
      exact iff_of_false (Nat.not_lt.mpr (Nat.le_add_left _ _)) (Nat.not_le.mpr hpow)
    · have hfront := ih (n / radix.base)
      rw [Nat.le_div_iff_mul_le (by omega), ← Nat.pow_succ] at hfront
      rw [digits_of_le h, List.length_append, List.length_singleton, Nat.add_lt_add_iff_right]
      exact hfront

/-- Zeros in front make a number no greater. -/
theorem ofDigits_lt {radix : Radix} {digits : Text} (h : digits.all (isDigitOf radix) = true) :
    ofDigits radix digits < radix.base ^ digits.length := by
  induction digits using List.reverseRecOn with
  | nil => exact Nat.one_pos
  | append_singleton front c ih =>
    rw [List.all_append, Bool.and_eq_true, List.all_cons, List.all_nil, Bool.and_true] at h
    have hdigit : (digitValue? c).getD 0 < radix.base := by
      have hc := h.2
      unfold isDigitOf at hc
      cases hvalue : digitValue? c with
      | none => rw [hvalue] at hc; cases hc
      | some d => rw [hvalue] at hc; exact of_decide_eq_true hc
    have hstep : ofDigits radix (front ++ [c]) =
        radix.base * ofDigits radix front + (digitValue? c).getD 0 := by
      rw [ofDigits, List.foldl_append]
      rfl
    rw [hstep, List.length_append, List.length_singleton, Nat.pow_succ]
    calc radix.base * ofDigits radix front + (digitValue? c).getD 0
        < radix.base * (ofDigits radix front + 1) := by
          rw [Nat.mul_add, Nat.mul_one]
          exact Nat.add_lt_add_left hdigit _
      _ ≤ radix.base * radix.base ^ front.length := Nat.mul_le_mul_left _ (ih h.1)
      _ = radix.base ^ front.length * radix.base := Nat.mul_comm _ _

theorem tooMany_digits_iff (n : Nat) :
    TooMany .dec (digits .dec n) ↔ 10 ^ mostDecimals ≤ n := by
  rw [show 10 = Radix.dec.base from rfl]
  exact (and_iff_right rfl).trans (lt_length_digits_iff .dec (by decide) n)

/-- A number is too long to be written in decimal from a power of ten on. -/
theorem long_dec_iff {value : Int} : Long .dec value ↔ 10 ^ mostDecimals ≤ value.natAbs :=
  tooMany_digits_iff _

theorem not_tooMany_of_ne {radix : Radix} (h : radix ≠ .dec) (digits : Text) :
    ¬ TooMany radix digits :=
  fun hmany => h hmany.1

theorem not_long_of_ne {radix : Radix} (h : radix ≠ .dec) (value : Int) : ¬ Long radix value :=
  not_tooMany_of_ne h _

/-! ## Marks -/

theorem announced_of_ne_zero {otherwise : Radix} {c : Char} {rest : Text} (h : c ≠ '0') :
    announced otherwise (c :: rest) = (otherwise, c :: rest) := by
  rw [announced]
  intro d t ht
  exact h (List.cons.inj ht).1

theorem announced_single (otherwise : Radix) (c : Char) :
    announced otherwise [c] = (otherwise, [c]) := by
  rw [announced]
  intro d rest h
  cases h

/-- The letters that make a mark of the zero in front of them. -/
def marks : List (Char × Radix) :=
  [('b', .bin), ('B', .bin), ('o', .oct), ('O', .oct), ('x', .hex), ('X', .hex)]

theorem announced_marked {c : Char} {radix : Radix} (h : (c, radix) ∈ marks) (otherwise : Radix)
    (rest : Text) : announced otherwise ('0' :: c :: rest) = (radix, rest) := by
  simp only [marks, List.mem_cons, Prod.mk.injEq, List.not_mem_nil, or_false] at h
  rcases h with ⟨rfl, rfl⟩ | ⟨rfl, rfl⟩ | ⟨rfl, rfl⟩ | ⟨rfl, rfl⟩ | ⟨rfl, rfl⟩ | ⟨rfl, rfl⟩ <;> rfl

theorem announced_other {c : Char} (h : ∀ radix, (c, radix) ∉ marks) (otherwise : Radix)
    (rest : Text) : announced otherwise ('0' :: c :: rest) =
      if Text.isDigit c then (.oct, c :: rest) else (otherwise, '0' :: c :: rest) := by
  have hbin := h .bin
  have hoct := h .oct
  have hhex := h .hex
  simp only [marks, List.mem_cons, Prod.mk.injEq, List.not_mem_nil, or_false, and_true, and_false,
    reduceCtorEq, false_or] at hbin hoct hhex
  rw [announced, if_neg hbin, if_neg hoct, if_neg hhex]

/-- An octal digit is a decimal one, and no letter of a mark. -/
theorem digitChar_oct {d : Nat} (h : d < 8) :
    Text.isDigit (Nat.digitChar d) = true ∧ ∀ radix, (Nat.digitChar d, radix) ∉ marks := by
  have hall : ∀ d < 8, Text.isDigit (Nat.digitChar d) = true ∧
      ∀ mark ∈ marks, mark.1 ≠ Nat.digitChar d := by
    decide
  obtain ⟨hdigit, hmark⟩ := hall d h
  exact ⟨hdigit, fun radix hmem => hmark _ hmem rfl⟩

theorem announced_oct (otherwise : Radix) (n : Nat) :
    announced otherwise ('0' :: digits .oct n) = (.oct, digits .oct n) := by
  obtain ⟨d, rest, hd, hdigits⟩ := exists_digits .oct n
  obtain ⟨hdigit, hother⟩ := digitChar_oct hd
  rw [hdigits, announced_other hother, if_pos hdigit]

theorem announced_dec (n : Nat) : announced .dec (digits .dec n) = (.dec, digits .dec n) := by
  obtain ⟨c, rest, hdigits⟩ := List.exists_cons_of_ne_nil
    (show digits .dec n ≠ [] from Nat.toDigits_ne_nil)
  by_cases hc : c = '0'
  · subst hc
    rw [hdigits, digits_eq_cons hdigits]
    rfl
  · rw [hdigits, announced_of_ne_zero hc]

theorem readMagnitude_mark {radix otherwise : Radix} (h : radix ≠ .dec ∨ otherwise = .dec)
    {n : Nat} (hshort : ¬ TooMany radix (digits radix n)) :
    readMagnitude otherwise (radix.mark ++ digits radix n) = .ok n := by
  have hannounced : announced otherwise (radix.mark ++ digits radix n) =
      (radix, digits radix n) := by
    cases radix with
    | bin => rfl
    | oct => exact announced_oct otherwise n
    | hex => rfl
    | dec =>
      obtain rfl := h.resolve_left (fun hne => hne rfl)
      exact announced_dec n
  rw [readMagnitude, hannounced]
  dsimp only
  rw [ofDigits?_digits]
  exact if_neg hshort

/-! ## Reading back -/

/-- The characters of a numeral behind its sign. -/
theorem mem_mark_digits {radix : Radix} {n : Nat} {c : Char}
    (h : c ∈ radix.mark ++ digits radix n) :
    c = 'b' ∨ c = 'x' ∨ ∃ d < 16, c = Nat.digitChar d := by
  rcases List.mem_append.mp h with hmark | hdigit
  · have hchar : c = 'b' ∨ c = 'x' ∨ c = '0' := by
      cases radix <;> simp only [Radix.mark, List.mem_cons, List.not_mem_nil, or_false] at hmark <;>
        tauto
    exact hchar.imp id (Or.imp id fun hzero => ⟨0, by decide, hzero⟩)
  · obtain ⟨d, hd, rfl⟩ := mem_digits hdigit
    exact Or.inr (Or.inr ⟨d, Nat.lt_of_lt_of_le hd radix.base_le, rfl⟩)

theorem visible_mark_digits (radix : Radix) (n : Nat) :
    ∀ c ∈ radix.mark ++ digits radix n, Text.isSpace c = false ∧ c ≠ '-' := by
  intro c hc
  have hall : ∀ d < 16, Text.isSpace (Nat.digitChar d) = false ∧ Nat.digitChar d ≠ '-' := by
    decide
  rcases mem_mark_digits hc with rfl | rfl | ⟨d, hd, rfl⟩
  · decide
  · decide
  · exact hall d hd

theorem trim_render (radix : Radix) (value : Int) :
    Text.trim (render radix value) = render radix value := by
  refine Text.trim_of_visible fun c hc => ?_
  rw [render, List.append_assoc] at hc
  rcases List.mem_append.mp hc with hsign | hc
  · split at hsign
    · rw [List.mem_singleton.mp hsign]
      decide
    · cases hsign
  · exact (visible_mark_digits radix _ c hc).1

theorem render_of_neg {radix : Radix} {value : Int} (h : value < 0) :
    render radix value = '-' :: (radix.mark ++ digits radix value.natAbs) := by
  rw [render, if_pos h]
  rfl

theorem render_of_nonneg {radix : Radix} {value : Int} (h : ¬ value < 0) :
    render radix value = radix.mark ++ digits radix value.natAbs := by
  rw [render, if_neg h]
  rfl

/-- **Numerals are read back**, in the radix of their mark, or in decimal by a
reader of decimal numerals. -/
theorem read_render {radix otherwise : Radix} (h : radix ≠ .dec ∨ otherwise = .dec)
    {value : Int} (hshort : ¬ Long radix value) :
    read otherwise (render radix value) = .ok value := by
  have hmagnitude := readMagnitude_mark h hshort
  rw [read, trim_render]
  by_cases hneg : value < 0
  · rw [render_of_neg hneg]
    simp only [hmagnitude]
    exact congrArg Except.ok (show -(value.natAbs : Int) = value by omega)
  · rw [render_of_nonneg hneg]
    split
    · next body hbody =>
      have hmem : '-' ∈ radix.mark ++ digits radix value.natAbs := by
        rw [hbody]
        exact List.mem_cons_self
      exact absurd rfl (visible_mark_digits radix _ '-' hmem).2
    · rw [hmagnitude]
      exact congrArg Except.ok (show (value.natAbs : Int) = value by omega)

/-- The same for a numeral without a sign. -/
theorem read_mark_digits {radix otherwise : Radix} (h : radix ≠ .dec ∨ otherwise = .dec)
    {n : Nat} (hshort : ¬ Long radix n) :
    read otherwise (radix.mark ++ digits radix n) = .ok n := by
  have hread := read_render h hshort
  rwa [render_of_nonneg (by omega)] at hread

end Numeral

end BitLayout
