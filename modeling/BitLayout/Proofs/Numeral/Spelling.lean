import BitLayout.Proofs.Numeral.RoundTrip

/-!
# Spellings of a numeral

Whoever writes a numeral may leave white space around it and write its
letters, those of the mark as well as the digits above nine, in upper
case. None of this changes its value. The reader looks at a text only
through questions that a letter and its capital answer alike
(`toLower_congr`), so a text in lower case is read like the text itself
(`read_lower_iff`), and trimming takes away whatever white space
stands around it (`trim_surrounded`).

With `read_render` this says that a written numeral names its number to
every reader, however it is spelled (`parse_spelling`).
-/

namespace BitLayout

namespace Text

def lower (text : Text) : Text :=
  text.map Char.toLower

/-- What a letter and its capital have in common is seen on ASCII characters. -/
theorem toLower_congr {α : Type} {f : Char → α}
    (h : ∀ n < 128, f (Char.ofNat n).toLower = f (Char.ofNat n)) (c : Char) :
    f c.toLower = f c := by
  by_cases hc : c.toNat < 128
  · exact ascii_cases (P := fun c => f c.toLower = f c) h hc
  · rw [toLower_of_not_ascii hc]

theorem toUpper_of_not_ascii {c : Char} (h : ¬ c.toNat < 128) : c.toUpper = c := by
  rw [Char.toUpper, dif_neg]
  rintro ⟨-, hle⟩
  exact h (Nat.lt_of_le_of_lt (show c.toNat ≤ 122 from hle) (by decide))

theorem toLower_toUpper (c : Char) : c.toUpper.toLower = c.toLower := by
  by_cases hc : c.toNat < 128
  · exact ascii_cases (P := fun c => c.toUpper.toLower = c.toLower) (by decide) hc
  · rw [toUpper_of_not_ascii hc]

theorem isSpace_toLower (c : Char) : isSpace c.toLower = isSpace c :=
  toLower_congr (by decide +kernel) c

theorem isDigit_toLower (c : Char) : isDigit c.toLower = isDigit c :=
  toLower_congr (by decide +kernel) c

theorem dropWhile_isSpace_lower (text : Text) :
    (lower text).dropWhile isSpace = lower (text.dropWhile isSpace) := by
  have hspace : isSpace ∘ Char.toLower = isSpace := funext isSpace_toLower
  rw [lower, List.dropWhile_map, hspace, lower]

theorem trim_lower (text : Text) : trim (lower text) = lower (trim text) := by
  have hright : trimRight (lower text) = lower (trimRight text) := by
    have hreverse := dropWhile_isSpace_lower text.reverse
    simp only [lower, List.map_reverse] at hreverse
    simp only [trimRight, lower, hreverse, List.map_reverse]
  rw [trim, hright, trimLeft, dropWhile_isSpace_lower, trim, trimLeft]

theorem trim_surrounded {front text back : Text} (hfront : ∀ c ∈ front, isSpace c = true)
    (hback : ∀ c ∈ back, isSpace c = true) : trim (front ++ text ++ back) = trim text := by
  rw [trim, trimRight_append_of_nil (trimRight_eq_nil_iff.mpr hback)]
  by_cases hnil : trimRight text = []
  · rw [trimRight_append_of_nil hnil, trimRight_eq_nil_iff.mpr hfront, trim, hnil]
  · rw [trimRight_append_of_ne hnil, trimLeft, List.dropWhile_append_of_pos hfront]
    rfl

end Text

namespace Numeral

open Text (lower)

/-- `spelled` is `text` with any of its letters in upper case and with white
space around. -/
def Spelling (text spelled : Text) : Prop :=
  ∃ front other back, spelled = front ++ other ++ back ∧
    (∀ c ∈ front ++ back, Text.isSpace c = true) ∧
    List.Forall₂ (fun c d => d = c ∨ d = c.toUpper) text other

/-! ## Reading in lower case -/

theorem digitValue?_toLower (c : Char) : digitValue? c.toLower = digitValue? c :=
  Text.toLower_congr (by decide) c

theorem ofDigits?_lower (radix : Radix) (text : Text) :
    ofDigits? radix (lower text) = ofDigits? radix text := by
  have hdigit : isDigitOf radix ∘ Char.toLower = isDigitOf radix := by
    funext c
    simp only [Function.comp_apply, isDigitOf, digitValue?_toLower]
  have hvalue : ofDigits radix (text.map Char.toLower) = ofDigits radix text := by
    simp only [ofDigits, List.foldl_map, digitValue?_toLower]
  simp only [ofDigits?, lower, hvalue, List.all_map, hdigit, ne_eq, List.map_eq_nil_iff]

theorem toLower_eq_zero_iff (c : Char) : c.toLower = '0' ↔ c = '0' :=
  iff_of_eq (Text.toLower_congr (f := (· = '0')) (by decide) c)

theorem announced_lower (otherwise : Radix) (text : Text) :
    announced otherwise (lower text) =
      ((announced otherwise text).1, lower (announced otherwise text).2) := by
  match text with
  | [] => rfl
  | [c] => simp only [lower, List.map_cons, List.map_nil, announced_single]
  | c :: d :: rest =>
    by_cases hc : c = '0'
    · subst hc
      have hmarks : ∀ radix, (d.toLower, radix) ∈ marks ↔ (d, radix) ∈ marks := by
        intro radix
        refine iff_of_eq (Text.toLower_congr (f := fun d => (d, radix) ∈ marks) ?_ d)
        cases radix <;> decide
      have hlower : lower ('0' :: d :: rest) = '0' :: d.toLower :: lower rest := rfl
      rw [hlower]
      by_cases hmark : ∃ radix, (d, radix) ∈ marks
      · obtain ⟨radix, hmark⟩ := hmark
        rw [announced_marked hmark, announced_marked ((hmarks radix).mpr hmark)]
      · have hother : ∀ radix, (d, radix) ∉ marks := fun radix h => hmark ⟨radix, h⟩
        have hcapital : ∀ radix, (d.toLower, radix) ∉ marks := by
          intro radix
          rw [hmarks]
          exact hother radix
        rw [announced_other hother, announced_other hcapital, Text.isDigit_toLower]
        split <;> rfl
    · have hlower : c.toLower ≠ '0' := fun h => hc ((toLower_eq_zero_iff c).mp h)
      rw [announced_of_ne_zero hc]
      exact announced_of_ne_zero hlower

theorem tooMany_lower (radix : Radix) (digits : Text) :
    TooMany radix (lower digits) ↔ TooMany radix digits := by
  rw [TooMany, TooMany, lower, List.length_map]

theorem readMagnitude_lower (otherwise : Radix) (text : Text) :
    readMagnitude otherwise (lower text) = readMagnitude otherwise text := by
  simp only [readMagnitude, announced_lower, ofDigits?_lower, tooMany_lower]

/-- A text is a numeral when it is one in lower case, and then of the same number. -/
theorem read_lower_iff (otherwise : Radix) (text : Text) (value : Int) :
    read otherwise (lower text) = .ok value ↔ read otherwise text = .ok value := by
  simp only [read, mapError_eq_ok_iff, Text.trim_lower]
  cases Text.trim text with
  | nil => rfl
  | cons c rest =>
    have hsign : c.toLower = '-' ↔ c = '-' :=
      iff_of_eq (Text.toLower_congr (f := (· = '-')) (by decide) c)
    by_cases hc : c = '-'
    · subst hc
      have hminus : '-'.toLower = '-' := rfl
      have hmagnitude := readMagnitude_lower otherwise rest
      rw [lower] at hmagnitude
      simp only [lower, List.map_cons, hminus, hmagnitude]
    · have hlower : c.toLower ≠ '-' := fun h => hc (hsign.mp h)
      have hmagnitude := readMagnitude_lower otherwise (c :: rest)
      rw [lower, List.map_cons] at hmagnitude
      simp only [lower, List.map_cons]
      split
      · next h => exact absurd (List.cons.inj h).1 hlower
      split
      · next h => exact absurd (List.cons.inj h).1 hc
      rw [hmagnitude]

/-! ## Reading a spelling -/

theorem lower_eq_of_capitals {text other : Text}
    (h : List.Forall₂ (fun c d => d = c ∨ d = c.toUpper) text other) : lower other = lower text := by
  induction h with
  | nil => rfl
  | cons hhead htail ih =>
    simp only [lower, List.map_cons] at ih ⊢
    rcases hhead with rfl | rfl
    · rw [ih]
    · rw [ih, Text.toLower_toUpper]

/-- A spelling of a numeral has its value. -/
theorem read_spelling {otherwise : Radix} {text spelled : Text} {value : Int}
    (hread : read otherwise text = .ok value) (h : Spelling text spelled) :
    read otherwise spelled = .ok value := by
  obtain ⟨front, other, back, rfl, hspace, hcapitals⟩ := h
  have hother : read otherwise other = .ok value := by
    rw [← read_lower_iff, lower_eq_of_capitals hcapitals, read_lower_iff]
    exact hread
  have htrim : Text.trim (front ++ other ++ back) = Text.trim other :=
    Text.trim_surrounded (fun c hc => hspace c (List.mem_append_left back hc))
      (fun c hc => hspace c (List.mem_append_right front hc))
  rw [read, htrim]
  exact hother

/-- **A numeral names its number**, to a reader asked for any of the four
bases when it is binary, octal or hexadecimal, and to a reader of decimal
numerals when it is decimal; in upper case and with white space around it
as well as it is written. In decimal only a number that is not too long has
one. -/
theorem parse_spelling {r d : Int}
    (h : r ∈ [2, 8, 16] ∧ d ∈ [2, 8, 10, 16] ∨ r = 10 ∧ d = 10) {v : Int}
    (hshort : r = 10 → v.natAbs < 10 ^ mostDecimals) :
    ∃ text, format v r = .ok text ∧
      ∀ spelled, Spelling text spelled → parse spelled d = .ok v := by
  have hradices : ∃ radix otherwise : Radix, r = radix.base ∧
      d = otherwise.base ∧ (radix ≠ .dec ∨ otherwise = .dec) := by
    rcases h with ⟨hr, hd⟩ | ⟨rfl, rfl⟩
    · obtain ⟨otherwise, hotherwise⟩ := Radix.mem_bases_iff.mp hd
      simp only [List.mem_cons, List.not_mem_nil, or_false] at hr
      rcases hr with rfl | rfl | rfl
      · exact ⟨.bin, otherwise, rfl, hotherwise, Or.inl (by decide)⟩
      · exact ⟨.oct, otherwise, rfl, hotherwise, Or.inl (by decide)⟩
      · exact ⟨.hex, otherwise, rfl, hotherwise, Or.inl (by decide)⟩
    · exact ⟨.dec, .dec, rfl, rfl, Or.inr rfl⟩
  obtain ⟨radix, otherwise, rfl, rfl, hannounced⟩ := hradices
  have hwritten : ¬ Long radix v := by
    intro hlong
    obtain rfl : radix = .dec := hlong.1
    exact Nat.not_le.mpr (hshort rfl) (long_dec_iff.mp hlong)
  refine ⟨render radix v, ?_, fun spelled hspelled => ?_⟩
  · rw [format_base, if_neg hwritten]
  · rw [parse_base]
    exact read_spelling (read_render hannounced hwritten) hspelled

/-- A number that is too long has no decimal numeral. -/
theorem format_dec_long {v : Int} (h : 10 ^ mostDecimals ≤ v.natAbs) :
    format v 10 = .error .tooLong :=
  (format_base v .dec).trans (if_pos (long_dec_iff.mpr h))

/-- The least such number is not written, so nothing is read back. -/
theorem parse_spelling_tooLong :
    format (10 ^ mostDecimals : Nat) 10 = .error .tooLong ∧
      ¬ ∃ text, format (10 ^ mostDecimals : Nat) 10 = .ok text ∧
        parse text 10 = .ok (10 ^ mostDecimals : Nat) := by
  have hlong : format (10 ^ mostDecimals : Nat) 10 = .error .tooLong :=
    format_dec_long (Nat.le_of_eq (Int.natAbs_natCast _).symm)
  refine ⟨hlong, ?_⟩
  rintro ⟨text, hformat, -⟩
  cases hlong.symm.trans hformat

/-- A hexadecimal numeral in capitals, to a reader asked for binary ones, and the decimal numeral
of the same number. -/
theorem parse_spelling_capitals :
    (format (-171) 16 = .ok "-0xab".toList ∧ parse " -0XaB\n".toList 2 = .ok (-171)) ∧
      (-171 : Int).natAbs < 10 ^ mostDecimals ∧
        format (-171) 10 = .ok "-171".toList ∧ parse "-171\n".toList 10 = .ok (-171) := by
  have hshort : (-171 : Int).natAbs < 10 ^ mostDecimals :=
    calc 171 < 10 ^ 3 := by decide
      _ ≤ 10 ^ mostDecimals := Nat.pow_le_pow_right (by decide) (by decide)
  have hbreak : ∀ c ∈ [] ++ ['\n'], Text.isSpace c = true := List.forall_mem_singleton.mpr rfl
  have hspace : ∀ c ∈ [' '] ++ ['\n'], Text.isSpace c = true :=
    List.forall_mem_cons.mpr ⟨rfl, hbreak⟩
  have hhex : format (-171) 16 = .ok "-0xab".toList := by decide +kernel
  have hdec : format (-171) 10 = .ok "-171".toList := by decide +kernel
  obtain ⟨text, hformat, hspelled⟩ := parse_spelling (r := 16) (d := 2) (v := -171) (by decide)
    fun _ => hshort
  obtain rfl := Except.ok.inj (hhex.symm.trans hformat)
  obtain ⟨text, hformat, hsame⟩ := parse_spelling (r := 10) (d := 10) (v := -171) (by decide)
    fun _ => hshort
  obtain rfl := Except.ok.inj (hdec.symm.trans hformat)
  refine ⟨⟨hhex, hspelled _ ⟨[' '], "-0XaB".toList, ['\n'], rfl, hspace, ?_⟩⟩,
    hshort, hdec, hsame _ ⟨[], "-171".toList, ['\n'], rfl, hbreak, ?_⟩⟩
  · exact .cons (.inl rfl) (.cons (.inl rfl) (.cons (.inr rfl) (.cons (.inl rfl)
      (.cons (.inr rfl) .nil))))
  · exact List.forall₂_same.mpr fun c _ => .inl rfl

end Numeral

end BitLayout
