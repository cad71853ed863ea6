import BitLayout.Proofs.Token.Gap
import BitLayout.Text.Basic

/-!
# What a text begins with

The first token of a text, and what stands behind it, told in two ways. A
`Token.Front` may have a gap before it and does not depend on how the text
ends, which suits texts that are written down. A token that `Token.Begins`
a text stands right at its front.

A text without quotes begins, behind its gap, with a word or an operator,
and what follows may be exchanged for anything that does not make the word
longer (`Token.exists_word`).
-/

namespace BitLayout

namespace Text

theorem ne_nil_of_head {word : Text} {p : Char → Bool} (h : word.head?.any p = true) :
    word ≠ [] := by
  rintro rfl
  cases h

/-- No literal begins in the text. -/
structure Unquoted (text : Text) : Prop where
  string : '"' ∉ text
  char : '\'' ∉ text

instance (text : Text) : Decidable text.Unquoted :=
  decidable_of_iff ('"' ∉ text ∧ '\'' ∉ text) ⟨fun h => ⟨h.1, h.2⟩, fun h => ⟨h.string, h.char⟩⟩

theorem Unquoted.of_infix {text piece : Text} (h : text.Unquoted) (hpiece : piece <:+: text) :
    piece.Unquoted :=
  ⟨fun hmem => h.string (hpiece.subset hmem), fun hmem => h.char (hpiece.subset hmem)⟩

/-- Neither a literal nor a comment begins in the text. -/
structure Plain (text : Text) : Prop extends Unquoted text where
  line : ¬ ['/', '/'] <:+: text
  block : ¬ ['/', '*'] <:+: text

instance (text : Text) : Decidable text.Plain :=
  decidable_of_iff (text.Unquoted ∧ ¬ ['/', '/'] <:+: text ∧ ¬ ['/', '*'] <:+: text)
    ⟨fun h => ⟨h.1, h.2.1, h.2.2⟩, fun h => ⟨h.toUnquoted, h.line, h.block⟩⟩

theorem Plain.of_infix {text piece : Text} (h : text.Plain) (hpiece : piece <:+: text) :
    piece.Plain :=
  ⟨h.toUnquoted.of_infix hpiece, fun hline => h.line (hline.trans hpiece),
    fun hblock => h.block (hblock.trans hpiece)⟩

theorem Plain.head?_ne {text : Text} (h : Plain ('/' :: text)) :
    text.head? ≠ some '/' ∧ text.head? ≠ some '*' := by
  constructor
  · intro hhead
    obtain ⟨rest, rfl⟩ := List.head?_eq_some_iff.mp hhead
    exact h.line (List.prefix_append ['/', '/'] rest).isInfix
  · intro hhead
    obtain ⟨rest, rfl⟩ := List.head?_eq_some_iff.mp hhead
    exact h.block (List.prefix_append ['/', '*'] rest).isInfix

end Text

namespace Token

/-- Where a token stands plays no part in whether it is wanted. -/
theorem accepts_offset (w : Want) (kind : TokenKind) (word : Text) (offset other : Nat) :
    w.accepts (some ⟨kind, word, offset⟩) = w.accepts (some ⟨kind, word, other⟩) := by
  cases w <;> rfl

/-! ## Fronts -/

/-- The first token of a text, and what stands behind it. The token is the
same if something is missing at the end of the text. -/
structure Front (text : Text) (kind : TokenKind) (word rest : Text) : Prop where
  gap : dropGap .between text = word ++ rest
  visible : ∃ front last, word = front ++ [last] ∧ Text.isSpace last = false
  lexeme : ∀ c tail shorter, word = c :: tail → shorter <+: rest →
    lexeme c (tail ++ shorter) = (kind, word)

/-- The kind of a token that is a word. -/
def wordKind : Text → TokenKind
  | [] => .identifier
  | c :: _ => if '0' ≤ c ∧ c ≤ '9' then .numeric else .identifier

theorem wordChar_of_digit {c : Char} (h : Text.isAsciiDigit c = true) : isWordChar c = true := by
  simp only [Text.isAsciiDigit, Bool.and_eq_true, decide_eq_true_eq] at h
  simp only [isWordChar, Char.isAlphanum, Char.isDigit, Bool.or_eq_true, Bool.and_eq_true,
    decide_eq_true_eq]
  exact Or.inl (Or.inr h)

theorem wordKind_of_head {word : Text}
    (h : word.head?.any (fun c => isWordChar c && !Text.isAsciiDigit c) = true) :
    wordKind word = .identifier := by
  cases word with
  | nil => rfl
  | cons c tail =>
    rw [List.head?_cons, Option.any_some, Bool.and_eq_true, Bool.not_eq_true'] at h
    rw [wordKind, if_neg]
    rintro ⟨hlow, hhigh⟩
    simp [Text.isAsciiDigit, hlow, hhigh] at h

theorem Front.blank {text word rest : Text} {kind : TokenKind} {c : Char}
    (h : Front text kind word rest) (hc : isBlank c = true) : Front (c :: text) kind word rest :=
  ⟨(dropGap_blank hc).trans h.gap, h.visible, h.lexeme⟩

theorem not_wordChar {c d : Char} (h : isWordChar c = true) (hd : isWordChar d = false) :
    c ≠ d := by
  rintro rfl
  rw [h] at hd
  cases hd

theorem not_mem_operators {c : Char} (h : isWordChar c = true) : c ∉ operators := by
  intro hmem
  have hall : operators.all (fun d => !isWordChar d) = true := rfl
  have := List.all_eq_true.mp hall c hmem
  rw [h] at this
  cases this

theorem not_blank_of_wordChar {c : Char} (h : isWordChar c = true) : ¬ isBlank c = true := by
  intro hblank
  simp only [isBlank, Bool.or_eq_true, beq_iff_eq] at hblank
  rcases hblank with ((rfl | rfl) | rfl) | rfl <;> cases h

theorem visible_of_wordChar {c : Char} (h : isWordChar c = true) : Text.isSpace c = false := by
  have hascii : c.toNat < 128 := by
    simp only [isWordChar, Char.isAlphanum, Char.isAlpha, Char.isUpper, Char.isLower,
      Char.isDigit, Bool.or_eq_true, Bool.and_eq_true, decide_eq_true_eq, beq_iff_eq,
      UInt32.le_iff_toNat_le, ge_iff_le] at h
    have hnat : c.val.toNat = c.toNat := rfl
    rcases h with ((⟨-, h⟩ | ⟨-, h⟩) | ⟨-, h⟩) | rfl
    · exact Nat.lt_of_le_of_lt h (by decide)
    · exact Nat.lt_of_le_of_lt h (by decide)
    · exact Nat.lt_of_le_of_lt h (by decide)
    · decide
  revert h
  exact Text.ascii_cases (P := fun c => isWordChar c = true → Text.isSpace c = false) (by decide)
    hascii

/-- A word that stands in front of the text ends there. -/
def EndsWord (text : Text) : Prop :=
  ∀ c t, text = c :: t → isWordChar c = false

theorem EndsWord.of_cons {c : Char} (h : isWordChar c = false) (text : Text) :
    EndsWord (c :: text) := by
  rintro d t ⟨⟩
  exact h

theorem EndsWord.of_isPrefix {text shorter : Text} (h : EndsWord text) (hshorter : shorter <+: text) :
    EndsWord shorter := by
  rintro c t rfl
  obtain ⟨behind, hbehind⟩ := hshorter
  exact h c (t ++ behind) hbehind.symm

theorem endsWord_dropWhile (text : Text) : EndsWord (text.dropWhile isWordChar) := by
  intro c t heq
  have hnot := List.head?_dropWhile_not isWordChar text
  rw [heq] at hnot
  exact hnot

/-- A character that is no quote and no operator begins a word. -/
theorem lexeme_word {c : Char} {tail rest : Text} (hstring : c ≠ '"') (hchar : c ≠ '\'')
    (hoperator : c ∉ operators) (htail : ∀ d ∈ tail, isWordChar d = true)
    (hrest : EndsWord rest) : lexeme c (tail ++ rest) = (wordKind (c :: tail), c :: tail) := by
  have hword : (tail ++ rest).takeWhile isWordChar = tail := by
    rw [List.takeWhile_append_of_pos htail]
    cases rest with
    | nil => exact List.append_nil tail
    | cons d t =>
      rw [List.takeWhile_cons_of_neg (by rw [hrest d t rfl]; exact Bool.false_ne_true),
        List.append_nil]
  rw [lexeme, if_neg hstring, if_neg hchar, if_neg hoperator, hword, wordKind]

theorem lexeme_operator {c : Char} (h : c ∈ operators) (rest : Text) :
    lexeme c rest = (.operator, [c]) := by
  have hall : operators.all (fun d => d != '"' && d != '\'') = true := rfl
  have hquotes := List.all_eq_true.mp hall c h
  rw [Bool.and_eq_true, bne_iff_ne, bne_iff_ne] at hquotes
  rw [lexeme, if_neg hquotes.1, if_neg hquotes.2, if_pos h]

theorem Front.of_word {word rest : Text} (hne : word ≠ []) (hall : word.all isWordChar = true)
    (hrest : EndsWord rest) : Front (word ++ rest) (wordKind word) word rest := by
  have hword : ∀ c ∈ word, isWordChar c = true := List.all_eq_true.mp hall
  obtain ⟨c, tail, rfl⟩ := List.exists_cons_of_ne_nil hne
  have hc := hword c List.mem_cons_self
  refine ⟨?_, ?_, ?_⟩
  · refine dropGap_of_stop (not_blank_of_wordChar hc) (not_wordChar hc rfl) ?_
    rintro rfl
    cases hc
  · refine ⟨_, _, (List.dropLast_concat_getLast hne).symm, ?_⟩
    exact visible_of_wordChar (hword _ (List.getLast_mem hne))
  · rintro d t shorter ⟨rfl, rfl⟩ hshorter
    exact lexeme_word (not_wordChar hc rfl) (not_wordChar hc rfl) (not_mem_operators hc)
      (fun e he => hword e (List.mem_cons_of_mem _ he)) (hrest.of_isPrefix hshorter)

theorem Front.of_operator {c : Char} {rest : Text} (hc : c ∈ operators) (hne : c ≠ '/') :
    Front (c :: rest) .operator [c] rest := by
  have hall : operators.all (fun d => !isBlank d && d != '\\' && !Text.isSpace d) = true := rfl
  have hchar := List.all_eq_true.mp hall c hc
  simp only [Bool.and_eq_true, Bool.not_eq_true', bne_iff_ne] at hchar
  obtain ⟨⟨hblank, hslash⟩, hspace⟩ := hchar
  refine ⟨?_, ⟨[], c, rfl, hspace⟩, ?_⟩
  · exact dropGap_of_stop (by rw [hblank]; exact Bool.false_ne_true) hslash
      fun heq => absurd heq hne
  · rintro d t shorter ⟨rfl, rfl⟩ -
    exact lexeme_operator hc shorter

/-! ## Tokens at the front -/

/-- The text begins with a token, which does not end in a backslash. -/
structure Begins (text : Text) (kind : TokenKind) (word rest : Text) : Prop where
  cut : text = word ++ rest
  lexeme : ∀ c tail, text = c :: tail → lexeme c tail = (kind, word)
  nonempty : text ≠ []
  unescaped : word.getLast? ≠ some '\\'

/-- No blank and no backslash stands in the text. -/
def Solid (text : Text) : Prop :=
  ∀ c ∈ text, isBlank c = false ∧ c ≠ '\\'

theorem Solid.no_backslash {text : Text} (h : Solid text) : '\\' ∉ text :=
  fun hmem => (h _ hmem).2 rfl

theorem Solid.no_lineFeed {text : Text} (h : Solid text) : '\n' ∉ text :=
  fun hmem => nomatch (h _ hmem).1

/-- **A text without quotes begins with a word or an operator**, and so does any
other text with the same word at its front, if the word ends there too. -/
theorem exists_word {c : Char} {t : Text} (hquotes : Text.Unquoted (c :: t))
    (hgap : dropGap .between (c :: t) = c :: t) :
    ∃ kind word rest, c :: t = word ++ rest ∧ Solid word ∧
      ∀ other, (EndsWord rest → EndsWord other) → Begins (word ++ other) kind word other := by
  obtain ⟨hblank, hslash, -⟩ := stop_of_dropGap hgap
  have hstring : c ≠ '"' := (List.ne_of_not_mem_cons hquotes.string).symm
  have hchar : c ≠ '\'' := (List.ne_of_not_mem_cons hquotes.char).symm
  by_cases hoperator : c ∈ operators
  · refine ⟨.operator, [c], t, rfl, ?_, fun other _ => ⟨rfl, ?_, nofun, ?_⟩⟩
    · rintro d hd
      obtain rfl := List.mem_singleton.mp hd
      exact ⟨hblank, hslash⟩
    · rintro d tail ⟨⟩
      exact lexeme_operator hoperator _
    · exact fun hlast => hslash (Option.some.inj hlast)
  · have htail : ∀ d ∈ t.takeWhile isWordChar, isWordChar d = true :=
      List.all_eq_true.mp List.all_takeWhile
    have hword : Solid (c :: t.takeWhile isWordChar) := by
      intro d hd
      rcases List.mem_cons.mp hd with rfl | hd
      · exact ⟨hblank, hslash⟩
      · have hd' := htail d hd
        exact ⟨Bool.eq_false_iff.mpr (not_blank_of_wordChar hd'), not_wordChar hd' rfl⟩
    refine ⟨wordKind (c :: t.takeWhile isWordChar), c :: t.takeWhile isWordChar,
      t.dropWhile isWordChar, ?_, hword, fun other hother => ⟨rfl, ?_, nofun, ?_⟩⟩
    · rw [List.cons_append, List.takeWhile_append_dropWhile]
    · rintro d tail ⟨⟩
      exact lexeme_word hstring hchar hoperator htail (hother (endsWord_dropWhile t))
    · exact fun hlast => hword.no_backslash (List.mem_of_getLast? hlast)

end Token

end BitLayout
