import BitLayout.Proofs.Decimal.Notation

/-!
# Written numbers are literals and no numerals

What stands behind the sign of a written number is either `Spelled` or the
word for infinity, and both have a character that is no digit in any radix
and no part of a mark: a point, the sign of an exponent, or a letter beyond
`f`. A reader of numerals takes at most a mark off the front, so it refuses
the text whatever its radix is (`Numeral.parse_of_mem`).

A reader of literals first makes the text plain, which it is already
(`Text.plainNumber?_of_alphabet`), and then finds the sign and the number
(`Literal.read?_of_spelled`).
-/

namespace BitLayout

namespace Text

/-! ## Plain texts -/

/-- The characters that numbers are written with. -/
def numberAlphabet : Text :=
  ['0', '1', '2', '3', '4', '5', '6', '7', '8', '9', '.', 'e', '+', '-', 'i', 'n', 'f']

/-- Text with a minus sign in front, or without. -/
def withSign (negative : Bool) (body : Text) : Text :=
  (if negative then ['-'] else []) ++ body

theorem numberAlphabet_plain :
    ∀ c ∈ numberAlphabet, isSpace c = false ∧ asciiDigit c = c ∧ c ≠ '_' :=
  mem_cases (by decide)

theorem mem_numberAlphabet {c : Char} (h : isAsciiDigit c = true) : c ∈ numberAlphabet := by
  have hascii : c.toNat < 128 := by
    have hle : c.toNat ≤ 57 := of_decide_eq_true (Bool.and_eq_true_iff.mp h).2
    omega
  exact ascii_cases (P := fun c => isAsciiDigit c = true → c ∈ numberAlphabet) (by decide) hascii h

theorem withSign_alphabet {negative : Bool} {body : Text}
    (h : ∀ c ∈ body, c ∈ numberAlphabet) : ∀ c ∈ withSign negative body, c ∈ numberAlphabet := by
  intro c hc
  rcases List.mem_append.mp hc with hc | hc
  · split at hc
    · rw [List.mem_singleton.mp hc]
      decide
    · cases hc
  · exact h c hc

theorem trimNumber_of_visible {text : Text} (h : ∀ c ∈ text, isSpace c = false) :
    trimNumber text = text := by
  have hkept : ∀ t : Text, (∀ c ∈ t, isSpace c = false) → t.dropWhile isNumberSpace = t := by
    intro t ht
    refine List.dropWhile_eq_self_iff.mpr fun hpos hspace => ?_
    have hfirst := ht _ (List.getElem_mem hpos)
    rw [isNumberSpace, hfirst] at hspace
    cases hspace
  rw [trimNumber, hkept text h, hkept _ fun c hc => h c (List.mem_reverse.mp hc),
    List.reverse_reverse]

theorem dropSeparators?_of_not_mem {text : Text} (h : '_' ∉ text) (afterDigit : Bool) :
    dropSeparators? afterDigit text = some text := by
  induction text generalizing afterDigit with
  | nil => rfl
  | cons c text ih =>
    rw [List.mem_cons, not_or] at h
    rw [dropSeparators?, if_neg (Ne.symm h.1), ih h.2, Option.map_some]

/-- A number as it is written has nothing that a reader would remove. -/
theorem plainNumber?_of_alphabet {text : Text} (h : ∀ c ∈ text, c ∈ numberAlphabet) :
    plainNumber? text = some text := by
  have hplain := fun c hc => numberAlphabet_plain c (h c hc)
  have hmap : text.map asciiDigit = text :=
    (List.map_congr_left fun c hc => (hplain c hc).2.1).trans (List.map_id' text)
  rw [plainNumber?, trimNumber_of_visible fun c hc => (hplain c hc).1, hmap,
    dropSeparators?_of_not_mem fun hc => (hplain _ hc).2.2 rfl]

end Text

namespace Numeral

/-! ## No numeral -/

/-- The characters of a written number that no numeral has behind its sign. -/
def foreign : Text :=
  ['.', '+', '-', 'n']

/-- The characters of the marks. -/
def markAlphabet : Text :=
  ['0', 'b', 'B', 'o', 'O', 'x', 'X']

/-- Nothing but a mark is taken off a numeral. -/
theorem mem_announced {otherwise : Radix} {body : Text} {c : Char} (hc : c ∈ body)
    (hmark : c ∉ markAlphabet) : c ∈ (announced otherwise body).2 := by
  have hdrop : ∀ {d rest}, c ∈ '0' :: d :: rest → d ∈ markAlphabet → c ∈ rest := by
    intro d rest hmem hd
    rcases List.mem_cons.mp hmem with rfl | hmem
    · exact absurd (by decide) hmark
    · rcases List.mem_cons.mp hmem with rfl | hmem
      · exact absurd hd hmark
      · exact hmem
  fun_cases announced otherwise body with
  | case1 d rest h => exact hdrop hc (by rcases h with rfl | rfl <;> decide)
  | case2 d rest _ h => exact hdrop hc (by rcases h with rfl | rfl <;> decide)
  | case3 d rest _ _ h => exact hdrop hc (by rcases h with rfl | rfl <;> decide)
  | case4 d rest _ _ _ h =>
    rcases List.mem_cons.mp hc with rfl | hc
    · exact absurd (by decide) hmark
    · exact hc
  | case5 d rest _ _ _ h => exact hc
  | case6 _ h => exact hc

theorem readMagnitude_of_mem {body : Text} {c : Char} (hc : c ∈ body) (hforeign : c ∈ foreign)
    (radix : Radix) : ∃ failed, readMagnitude radix body = .error (.refused failed) := by
  have hall : ∀ c ∈ foreign, c ∉ markAlphabet ∧ digitValue? c = none :=
    Text.mem_cases (by decide)
  obtain ⟨hmark, hdigit⟩ := hall c hforeign
  have hmem : c ∈ (announced radix body).2 := mem_announced hc hmark
  generalize hannounced : announced radix body = split at hmem
  have hrefused : ofDigits? split.1 split.2 = none := by
    refine if_neg fun h => ?_
    have := List.all_eq_true.mp h.2 c hmem
    rw [isDigitOf, hdigit] at this
    cases this
  refine ⟨split.1, ?_⟩
  rw [readMagnitude, hannounced]
  dsimp only
  rw [hrefused]

/-- A written number is refused as a numeral, in every radix. -/
theorem parse_of_mem {negative : Bool} {body : Text} {c : Char}
    (hbody : ∀ d ∈ body, d ∈ Text.numberAlphabet) (hfirst : body.head? ≠ some '-')
    (hc : c ∈ body) (hforeign : c ∈ foreign) (radix : Radix) :
    ∃ failed digits, parse (Text.withSign negative body) radix.base =
      .error (.refused (.badDigits failed digits)) := by
  have htrim : Text.trim (Text.withSign negative body) = Text.withSign negative body :=
    Text.trim_of_visible fun d hd =>
      (Text.numberAlphabet_plain d (Text.withSign_alphabet hbody d hd)).1
  obtain ⟨failed, hfailed⟩ := readMagnitude_of_mem hc hforeign radix
  refine ⟨failed, Text.withSign negative body, ?_⟩
  rw [parse_base, read, htrim]
  cases negative with
  | true =>
    rw [show Text.withSign true body = '-' :: body from rfl]
    simp only [hfailed]
    rfl
  | false =>
    rw [show Text.withSign false body = body from rfl]
    split
    · exact absurd rfl hfirst
    · rw [hfailed]
      rfl

end Numeral

namespace Decimal

/-! ## Literals -/

theorem takeSign_withSign {negative : Bool} {body : Text} {c : Char} {rest : Text}
    (hbody : body = c :: rest) (hc : c ∉ ['+', '-']) :
    takeSign (Text.withSign negative body) = (negative, body) := by
  subst hbody
  cases negative with
  | true => rfl
  | false =>
    show takeSign (c :: rest) = (false, c :: rest)
    rw [takeSign]
    · rintro t ht
      exact hc (by rw [(List.cons.inj ht).1]; decide)
    · rintro t ht
      exact hc (by rw [(List.cons.inj ht).1]; decide)

/-- What does not begin like a word is read as a number behind its sign. -/
theorem read?_of_body {text plain rest : Text} {negative : Bool} {c : Char}
    (hplain : Text.plainNumber? text = some plain) (hsign : takeSign plain = (negative, c :: rest))
    (hc : c.toLower ∉ ['i', 'n']) :
    Literal.read? text = (readMagnitude? (c :: rest)).map (.finite negative) := by
  have hword : ∀ word : Text, word.head? = some 'i' ∨ word.head? = some 'n' →
      (c :: rest).map Char.toLower ≠ word := by
    rintro word hhead rfl
    rw [List.map_cons, List.head?_cons] at hhead
    rcases hhead with hhead | hhead <;>
      exact hc (by rw [Option.some.inj hhead]; decide)
  have hinfinity : (c :: rest).map Char.toLower ∉ infinityWords := by
    intro hmem
    rcases List.mem_cons.mp hmem with hmem | hmem
    · exact hword _ (Or.inl rfl) hmem
    · exact hword _ (Or.inl rfl) (List.mem_singleton.mp hmem)
  rw [Literal.read?, hplain]
  show (if (takeSign plain).2.map Char.toLower ∈ infinityWords then _ else _) = _
  rw [hsign, if_neg hinfinity, if_neg (hword _ (Or.inr rfl))]
  cases readMagnitude? (c :: rest) <;> rfl

namespace Spelled

variable {text : Text} {d : Decimal}

theorem alphabet (h : Spelled text d) : ∀ c ∈ text, c ∈ Text.numberAlphabet := by
  have hothers : ∀ c ∈ ['.', 'e', '+', '-'], c ∈ Text.numberAlphabet :=
    Text.mem_cases (by decide)
  exact fun c hc => (h.mem hc).elim Text.mem_numberAlphabet (hothers c)

/-- No reader of numerals takes a decimal for one. -/
theorem parse_withSign (h : Spelled text d) (negative : Bool) (radix : Radix) :
    ∃ failed digits, Numeral.parse (Text.withSign negative text) radix.base =
      .error (.refused (.badDigits failed digits)) := by
  obtain ⟨c, hc, hsign⟩ := h.exists_mem
  obtain ⟨first, rest, hcons, hfirst⟩ := h.exists_cons
  have hforeign : ∀ c ∈ ['.', '+', '-'], c ∈ Numeral.foreign :=
    Text.mem_cases (by decide)
  refine Numeral.parse_of_mem h.alphabet ?_ hc (hforeign c hsign) radix
  rw [hcons, List.head?_cons]
  rintro ⟨⟩
  cases hfirst

/-- A decimal with its sign is read as a literal. -/
theorem read?_withSign (h : Spelled text d) (negative : Bool) :
    Literal.read? (Text.withSign negative text) = some (.finite negative d) := by
  obtain ⟨first, rest, rfl, hfirst⟩ := h.exists_cons
  have hdigit : first ∉ ['+', '-'] ∧ first.toLower ∉ ['i', 'n'] := by
    have hall : ∀ c ∈ Text.numberAlphabet, Text.isAsciiDigit c = true →
        c ∉ ['+', '-'] ∧ c.toLower ∉ ['i', 'n'] :=
      Text.mem_cases (by decide)
    exact hall first (Text.mem_numberAlphabet hfirst) hfirst
  have hplain := Text.plainNumber?_of_alphabet (@Text.withSign_alphabet negative _ h.alphabet)
  rw [read?_of_body hplain (takeSign_withSign rfl hdigit.1) hdigit.2, h.readMagnitude?_eq,
    Option.map_some]

end Spelled

theorem parse_infinity (negative : Bool) (radix : Radix) :
    ∃ failed digits, Numeral.parse (Text.withSign negative "inf".toList) radix.base =
      .error (.refused (.badDigits failed digits)) :=
  Numeral.parse_of_mem (c := 'n') (Text.mem_cases (by decide)) (by decide) (by decide)
    (by decide) radix

theorem read?_infinity (negative : Bool) :
    Literal.read? (Text.withSign negative "inf".toList) = some (.infinite negative) := by
  cases negative <;> decide +kernel

end Decimal

end BitLayout
