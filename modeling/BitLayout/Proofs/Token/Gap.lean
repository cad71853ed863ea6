import BitLayout.Proofs.Text.Trim
import BitLayout.Token

/-!
# Gaps and what lies behind them

What lies behind a gap is the end of the text (`dropGap_suffix`), and no
other gap (`dropGap_dropGap`). A comment is passed over as a whole, to what
closes it first (`dropGap_lineComment`, `dropGap_blockComment`). White space
at the very end of a text makes no difference to a gap before it, although
a backslash, a comment or the text itself may end there
(`dropGap_trimRight`).
-/

namespace BitLayout

namespace Token

/-! ## Gaps and lexemes are pieces of the text -/

theorem dropGap_suffix (part : GapPart) (text : Text) : dropGap part text <:+ text := by
  fun_induction dropGap part text with
  | case1 => exact List.suffix_refl _
  | case2 => exact List.nil_suffix
  | case3 c t ih => exact ih.trans ((List.suffix_cons c t).trans (List.suffix_cons _ _))
  | case4 t ih => exact ih.trans ((List.suffix_cons _ t).trans (List.suffix_cons _ _))
  | case5 t ih => exact ih.trans ((List.suffix_cons _ t).trans (List.suffix_cons _ _))
  | case6 c t _ _ _ _ _ ih => exact ih.trans (List.suffix_cons c t)
  | case7 => exact List.suffix_refl _
  | case8 c t ih => exact ih.trans (List.suffix_cons c t)
  | case9 t ih => exact ih.trans ((List.suffix_cons _ t).trans (List.suffix_cons _ _))
  | case10 c t _ ih => exact ih.trans (List.suffix_cons c t)

/-- Behind a gap there is no other gap. -/
theorem dropGap_dropGap (part : GapPart) (text : Text) :
    dropGap .between (dropGap part text) = dropGap part text := by
  fun_induction dropGap part text with
  | case1 | case2 => rfl
  | case7 c t h1 h2 h3 h4 h5 => rw [dropGap, if_neg h5] <;> assumption
  | _ => assumption

/-! ## The parts of a gap -/

theorem dropGap_blank {c : Char} {rest : Text} (h : isBlank c = true) :
    dropGap .between (c :: rest) = dropGap .between rest := by
  have hslash : c ≠ '\\' := by rintro rfl; cases h
  have hcomment : c ≠ '/' := by rintro rfl; cases h
  rw [dropGap, if_pos h] <;> simp [hslash, hcomment]

theorem dropGap_dropWhile (text : Text) :
    dropGap .between (text.dropWhile isBlank) = dropGap .between text := by
  induction text with
  | nil => rfl
  | cons c rest ih =>
    rw [List.dropWhile_cons]
    split
    · next h => rw [ih, dropGap_blank h]
    · rfl

theorem dropGap_backslash (rest : Text) :
    dropGap .between ('\\' :: rest) = dropGap .between (rest.drop 1) := by
  cases rest <;> rfl

theorem dropGap_lineComment (text : Text) :
    dropGap .lineComment text =
      match Text.findFirst? ['\n'] text with
      | some n => dropGap .between (text.drop (n + 1))
      | none => [] := by
  induction text with
  | nil => rfl
  | cons c rest ih =>
    by_cases hc : c = '\n'
    · subst hc
      rfl
    · have hfind : Text.findFirst? ['\n'] (c :: rest) =
          (Text.findFirst? ['\n'] rest).map (· + 1) := by
        rw [Text.findFirst?, if_neg (by simpa [List.isPrefixOf] using Ne.symm hc)]
      rw [dropGap, if_neg hc, ih, hfind]
      cases Text.findFirst? ['\n'] rest <;> rfl

theorem dropGap_blockComment (text : Text) :
    dropGap .blockComment text =
      match Text.findFirst? ['*', '/'] text with
      | some n => dropGap .between (text.drop (n + 2))
      | none => [] := by
  induction text with
  | nil => rfl
  | cons c rest ih =>
    by_cases hclose : ∃ t, c :: rest = '*' :: '/' :: t
    · obtain ⟨t, ht⟩ := hclose
      rw [ht]
      rfl
    · have hne : ∀ t, c = '*' → rest = '/' :: t → False :=
        fun t hc ht => hclose ⟨t, by rw [hc, ht]⟩
      have hfind : Text.findFirst? ['*', '/'] (c :: rest) =
          (Text.findFirst? ['*', '/'] rest).map (· + 1) := by
        rw [Text.findFirst?, if_neg]
        intro hprefix
        obtain ⟨t, ht⟩ := List.isPrefixOf_iff_prefix.mp hprefix
        exact hclose ⟨t, ht.symm⟩
      rw [dropGap, ih, hfind]
      · cases Text.findFirst? ['*', '/'] rest <;> rfl
      · exact hne

theorem dropGap_line {body : Text} (h : '\n' ∉ body) (rest : Text) :
    dropGap .lineComment (body ++ '\n' :: rest) = dropGap .between rest := by
  induction body with
  | nil => rfl
  | cons c body ih =>
    have hc : c ≠ '\n' := fun heq => h (heq ▸ List.mem_cons_self)
    rw [List.cons_append, dropGap, if_neg hc]
    exact ih fun hmem => h (List.mem_cons_of_mem c hmem)

theorem dropGap_closed {body : Text} (h : ¬ ['*', '/'] <:+: body) (rest : Text) :
    dropGap .blockComment (body ++ '*' :: '/' :: rest) = dropGap .between rest := by
  induction body with
  | nil => rfl
  | cons c body ih =>
    have hopen : ∀ t, c = '*' → body ++ '*' :: '/' :: rest = '/' :: t → False := by
      rintro t rfl ht
      cases body with
      | nil => cases ht
      | cons d body =>
        obtain ⟨rfl, -⟩ := List.cons.inj ht
        exact h (List.prefix_append ['*', '/'] body).isInfix
    rw [List.cons_append, dropGap]
    · exact ih fun hclose => h (hclose.trans (List.suffix_cons c body).isInfix)
    · exact hopen

/-! ## Trimmed texts -/

/-- A text that begins with something else than a part of a gap. -/
theorem dropGap_of_stop {c : Char} {rest : Text} (hblank : ¬ isBlank c = true) (hslash : c ≠ '\\')
    (hcomment : c = '/' → ∀ d t, rest = d :: t → d ≠ '/' ∧ d ≠ '*') :
    dropGap .between (c :: rest) = c :: rest := by
  rw [dropGap, if_neg hblank]
  · exact fun h _ => hslash h
  · exact fun _ _ h _ => hslash h
  · exact fun t h ht => (hcomment h '/' t ht).1 rfl
  · exact fun t h ht => (hcomment h '*' t ht).2 rfl

/-- What is left behind a gap does not begin with a part of another one. -/
theorem stop_of_dropGap {c : Char} {rest : Text} (h : dropGap .between (c :: rest) = c :: rest) :
    isBlank c = false ∧ c ≠ '\\' ∧
      (c = '/' → rest.head? ≠ some '/' ∧ rest.head? ≠ some '*') := by
  have hlength : (dropGap .between (c :: rest)).length = rest.length + 1 := congrArg List.length h
  refine ⟨?_, ?_, ?_⟩
  · by_contra hblank
    rw [dropGap_blank (Bool.eq_true_of_not_eq_false hblank)] at hlength
    have hle := length_dropGap_le .between rest
    omega
  · rintro rfl
    rw [dropGap_backslash] at hlength
    have hle := length_dropGap_le .between (rest.drop 1)
    rw [List.length_drop] at hle
    omega
  · rintro rfl
    constructor
    · intro hhead
      obtain ⟨tail, rfl⟩ := List.head?_eq_some_iff.mp hhead
      have hle := length_dropGap_le .lineComment tail
      rw [List.length_cons, dropGap] at hlength
      omega
    · intro hhead
      obtain ⟨tail, rfl⟩ := List.head?_eq_some_iff.mp hhead
      have hle := length_dropGap_le .blockComment tail
      rw [List.length_cons, dropGap] at hlength
      omega

/-- A token at the front stays there whatever follows its first character, as long
as that does not open a comment. -/
theorem dropGap_of_same_stop {c : Char} {rest other : Text}
    (h : dropGap .between (c :: rest) = c :: rest)
    (hother : ∀ d, d = '/' ∨ d = '*' → other.head? = some d → rest.head? = some d) :
    dropGap .between (c :: other) = c :: other := by
  obtain ⟨hblank, hslash, hcomment⟩ := stop_of_dropGap h
  refine dropGap_of_stop (by rw [hblank]; exact Bool.false_ne_true) hslash ?_
  rintro hc d tail rfl
  obtain ⟨hline, hblock⟩ := hcomment hc
  constructor
  · rintro rfl
    exact hline (hother '/' (Or.inl rfl) rfl)
  · rintro rfl
    exact hblock (hother '*' (Or.inr rfl) rfl)

/-- Where a line goes on below, it begins as it did. -/
theorem dropGap_append_lineFeed {c : Char} {line : Text}
    (h : dropGap .between (c :: line) = c :: line) (rest : Text) :
    dropGap .between (c :: line ++ '\n' :: rest) = c :: line ++ '\n' :: rest := by
  refine dropGap_of_same_stop h fun d hd hhead => ?_
  cases line with
  | nil =>
    obtain rfl : '\n' = d := Option.some.inj hhead
    rcases hd with hd | hd
    · exact absurd hd (by decide)
    · exact absurd hd (by decide)
  | cons e line => exact hhead

/-- Trimming the text and passing over its gap can be done in either order. -/
theorem dropGap_trimRight (part : GapPart) (text : Text) :
    dropGap part (Text.trimRight text) = Text.trimRight (dropGap part text) := by
  have hslash : Text.isSpace '\\' = false := by decide
  have hsolidus : Text.isSpace '/' = false := by decide
  have hstar : Text.isSpace '*' = false := by decide
  fun_induction dropGap part text with
  | case1 => rfl
  | case2 => rfl
  | case3 c t ih =>
    rw [Text.trimRight_cons_of_not_space hslash, dropGap_backslash, Text.trimRight_cons]
    split
    · next h => rw [← ih, h.1, List.drop_nil]
    · exact ih
  | case4 t ih =>
    rw [Text.trimRight_cons_of_not_space hsolidus, Text.trimRight_cons_of_not_space hsolidus]
    exact ih
  | case5 t ih =>
    rw [Text.trimRight_cons_of_not_space hsolidus, Text.trimRight_cons_of_not_space hstar]
    exact ih
  | case6 c t _ _ _ _ hblank ih =>
    rw [Text.trimRight_cons]
    split
    · next h => rw [← ih, h.1]
    · rw [dropGap_blank hblank, ih]
  | case7 c t h1 h2 h3 h4 h5 =>
    have hstop : dropGap .between (c :: t) = c :: t := by
      rw [dropGap, if_neg h5] <;> assumption
    rw [Text.trimRight_cons]
    split
    · rfl
    · refine dropGap_of_same_stop hstop fun d _ hhead => ?_
      obtain ⟨rest, hrest⟩ := List.head?_eq_some_iff.mp hhead
      obtain ⟨tail, htail⟩ := Text.trimRight_isPrefix t
      rw [← htail, hrest]
      rfl
  | case8 c t ih =>
    rw [Text.trimRight_cons]
    split
    · next h =>
      rw [← ih, h.1]
      split <;> rfl
    · rw [dropGap, ih]
  | case9 t ih =>
    rw [Text.trimRight_cons_of_not_space hstar, Text.trimRight_cons_of_not_space hsolidus]
    exact ih
  | case10 c t hclose ih =>
    rw [Text.trimRight_cons]
    split
    · next h => rw [← ih, h.1]
    · rw [dropGap, ih]
      intro r hc hr
      obtain ⟨tail, htail⟩ := Text.trimRight_isPrefix t
      rw [hr, List.cons_append] at htail
      exact hclose (r ++ tail) hc htail.symm

/-! ## Lexemes -/

theorem isPrefix_literalTail (quote : Char) (text : Text) : literalTail quote text <+: text := by
  fun_induction literalTail quote text <;> simp_all

theorem isPrefix_lexeme (c : Char) (rest : Text) : (lexeme c rest).2 <+: c :: rest := by
  unfold lexeme
  split
  · simpa using isPrefix_literalTail c rest
  · split
    · simpa using isPrefix_literalTail c rest
    · split
      · simp
      · simpa using List.takeWhile_prefix isWordChar

theorem first?_of_gap {start : Nat} {text rest : Text} {c : Char}
    (h : dropGap .between text = c :: rest) :
    first? start text =
      some ⟨(lexeme c rest).1, (lexeme c rest).2, start + (text.length - (rest.length + 1))⟩ := by
  rw [first?, h]

theorem first?_of_gap_nil {start : Nat} {text : Text} (h : dropGap .between text = []) :
    first? start text = none := by
  rw [first?, h]

/-- A lexeme begins with its first character. -/
theorem exists_lexeme (c : Char) (rest : Text) : ∃ tail, (lexeme c rest).2 = c :: tail := by
  unfold lexeme
  split
  · exact ⟨_, rfl⟩
  · split
    · exact ⟨_, rfl⟩
    · split
      · exact ⟨_, rfl⟩
      · exact ⟨_, rfl⟩

end Token

end BitLayout
