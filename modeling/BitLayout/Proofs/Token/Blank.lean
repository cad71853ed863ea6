import BitLayout.Proofs.Token.Literal

/-!
# The grammar of gaps and tokens

What may stand in a gap, and what a token may look like, told without a
scanner: a gap is a row of blanks, each of them complete (`Token.Gap`), and
only at the end of a text something may be cut off (`Token.LastGap`); a
token has one of five shapes, and its first character decides which
(`Token.Shape`).

The scanner finds what the grammar says. It takes a gap apart one blank
after the other (`gap_step`), so what it passes over before a token is a
gap (`exists_gap`), and what it takes for a token has the shape of one,
in front of whatever follows (`shape_lexeme`).
-/

namespace BitLayout

namespace Token

/-! ## Gaps -/

/-- A complete piece of a gap: a character, an escape with the character that it takes
along, or a comment with what closes it first. -/
inductive Blank : Text → Prop where
  | char {c : Char} (h : isBlank c = true) : Blank [c]
  | escape (c : Char) : Blank ['\\', c]
  | lineComment {body : Text} (h : '\n' ∉ body) : Blank ('/' :: '/' :: (body ++ ['\n']))
  | blockComment {body : Text} (h : ¬ ['*', '/'] <:+: body) :
      Blank ('/' :: '*' :: (body ++ ['*', '/']))

/-- What the end of the text may cut off: an escape, or a comment that nothing closes. -/
inductive CutShort : Text → Prop where
  | nothing : CutShort []
  | escape : CutShort ['\\']
  | lineComment {body : Text} (h : '\n' ∉ body) : CutShort ('/' :: '/' :: body)
  | blockComment {body : Text} (h : ¬ ['*', '/'] <:+: body) : CutShort ('/' :: '*' :: body)

def Gap (text : Text) : Prop :=
  ∃ blanks : List Text, (∀ blank ∈ blanks, Blank blank) ∧ text = blanks.flatten

/-- A gap that the text ends with. -/
def LastGap (text : Text) : Prop :=
  ∃ gap rest, text = gap ++ rest ∧ Gap gap ∧ CutShort rest

theorem gap_nil : Gap [] :=
  ⟨[], nofun, rfl⟩

theorem Gap.cons {blank gap : Text} (h : Gap gap) (hblank : Blank blank) : Gap (blank ++ gap) := by
  obtain ⟨blanks, hblanks, rfl⟩ := h
  refine ⟨blank :: blanks, ?_, List.flatten_cons.symm⟩
  intro other hother
  rcases List.mem_cons.mp hother with rfl | hother
  · exact hblank
  · exact hblanks other hother

theorem LastGap.cons {blank gap : Text} (h : LastGap gap) (hblank : Blank blank) :
    LastGap (blank ++ gap) := by
  obtain ⟨front, rest, rfl, hfront, hrest⟩ := h
  exact ⟨blank ++ front, rest, (List.append_assoc _ _ _).symm, hfront.cons hblank, hrest⟩

theorem Blank.ne_nil {blank : Text} (h : Blank blank) : blank ≠ [] := by
  cases h <;> nofun

/-! ## Comments -/

/-- A comment that is closed is cut at the first mark that closes it. -/
theorem exists_first_close {text : Text} (h : ['*', '/'] <:+: text) :
    ∃ body rest, text = body ++ '*' :: '/' :: rest ∧ ¬ ['*', '/'] <:+: body := by
  induction text with
  | nil => exact absurd (List.infix_nil.mp h) nofun
  | cons c text ih =>
    by_cases hfirst : ['*', '/'] <+: c :: text
    · obtain ⟨rest, hrest⟩ := hfirst
      refine ⟨[], rest, hrest.symm, fun hin => ?_⟩
      exact absurd (List.infix_nil.mp hin) nofun
    · obtain ⟨body, rest, rfl, hbody⟩ := ih ((List.infix_cons_iff.mp h).resolve_left hfirst)
      refine ⟨c :: body, rest, rfl, fun hin => ?_⟩
      rcases List.infix_cons_iff.mp hin with hfront | hin
      · exact hfirst (hfront.trans (List.prefix_append (c :: body) _))
      · exact hbody hin

theorem dropGap_lineComment_open {text : Text} (h : '\n' ∉ text) :
    dropGap .lineComment text = [] := by
  induction text with
  | nil => rfl
  | cons c text ih =>
    have hc : c ≠ '\n' := (List.ne_of_not_mem_cons h).symm
    rw [dropGap, if_neg hc]
    exact ih (List.not_mem_of_not_mem_cons h)

theorem dropGap_blockComment_open {text : Text} (h : ¬ ['*', '/'] <:+: text) :
    dropGap .blockComment text = [] := by
  induction text with
  | nil => rfl
  | cons c text ih =>
    rw [dropGap]
    · exact ih fun hin => h (hin.trans (List.suffix_cons c text).isInfix)
    · rintro rest rfl rfl
      exact h (List.prefix_append ['*', '/'] rest).isInfix

/-! ## What the scanner passes over -/

/-- How a text begins: with what is cut off, with a blank, or with a token. -/
inductive GapStep (text : Text) : Prop where
  | cut (h : CutShort text) (hgap : dropGap .between text = [])
  | blank {blank rest : Text} (h : Blank blank) (htext : text = blank ++ rest)
      (hgap : dropGap .between text = dropGap .between rest)
  | stop {c : Char} {rest : Text} (htext : text = c :: rest) (hgap : dropGap .between text = text)

theorem gapStep_lineComment (text : Text) : GapStep ('/' :: '/' :: text) := by
  by_cases hmem : '\n' ∈ text
  · obtain ⟨body, rest, rfl, hbody⟩ := List.eq_append_cons_of_mem hmem
    exact .blank (.lineComment hbody) (by simp) (dropGap_line hbody rest)
  · exact .cut (.lineComment hmem) (dropGap_lineComment_open hmem)

theorem gapStep_blockComment (text : Text) : GapStep ('/' :: '*' :: text) := by
  by_cases hclose : ['*', '/'] <:+: text
  · obtain ⟨body, rest, rfl, hbody⟩ := exists_first_close hclose
    exact .blank (.blockComment hbody) (by simp) (dropGap_closed hbody rest)
  · exact .cut (.blockComment hclose) (dropGap_blockComment_open hclose)

/-- **One piece of a gap.** -/
theorem gap_step (text : Text) : GapStep text := by
  cases text with
  | nil => exact .cut .nothing rfl
  | cons c rest =>
    cases hblank : isBlank c with
    | true => exact .blank (.char hblank) (show _ = [c] ++ rest from rfl) (dropGap_blank hblank)
    | false =>
      by_cases hslash : c = '\\'
      · subst hslash
        cases rest with
        | nil => exact .cut .escape rfl
        | cons d rest => exact .blank (.escape d) (show _ = ['\\', d] ++ rest from rfl) rfl
      · by_cases hline : c = '/' ∧ rest.head? = some '/'
        · obtain ⟨rfl, hhead⟩ := hline
          obtain ⟨tail, rfl⟩ := List.head?_eq_some_iff.mp hhead
          exact gapStep_lineComment tail
        · by_cases hblock : c = '/' ∧ rest.head? = some '*'
          · obtain ⟨rfl, hhead⟩ := hblock
            obtain ⟨tail, rfl⟩ := List.head?_eq_some_iff.mp hhead
            exact gapStep_blockComment tail
          · refine .stop rfl (dropGap_of_stop (by rw [hblank]; exact Bool.false_ne_true) hslash ?_)
            rintro hc d tail rfl
            refine ⟨?_, ?_⟩
            · rintro rfl
              exact hline ⟨hc, rfl⟩
            · rintro rfl
              exact hblock ⟨hc, rfl⟩

/-- **What stands before a token is a gap**, by induction over its pieces; and where there
is no token, the text is a gap that it ends with. -/
theorem exists_gap (text : Text) :
    (LastGap text ∧ dropGap .between text = []) ∨
      ∃ gap c rest, Gap gap ∧ text = gap ++ c :: rest ∧ dropGap .between text = c :: rest := by
  induction hlength : text.length using Nat.strong_induction_on generalizing text with
  | h n ih =>
    cases gap_step text with
    | cut h hgap => exact Or.inl ⟨⟨[], text, rfl, gap_nil, h⟩, hgap⟩
    | stop htext hgap =>
      subst htext
      exact Or.inr ⟨[], _, _, gap_nil, rfl, hgap⟩
    | @blank blank rest h htext hgap =>
      have hpos := List.length_pos_of_ne_nil h.ne_nil
      have hshorter : rest.length < n := by
        rw [← hlength, htext, List.length_append]
        omega
      rcases ih rest.length hshorter rest rfl with ⟨hlast, hnil⟩ | ⟨gap, c, tail, hrest, heq, hstop⟩
      · exact Or.inl ⟨htext ▸ hlast.cons h, hgap.trans hnil⟩
      · refine Or.inr ⟨blank ++ gap, c, tail, hrest.cons h, ?_, hgap.trans hstop⟩
        rw [htext, heq, List.append_assoc]

/-! ## Tokens -/

/-- The part of a literal behind its quote, and what follows the literal. It is open
until the last character, which closes it, or to the end of the text. -/
inductive Literal (quote : Char) : Text → Text → Prop where
  | closed {body rest : Text} (hopen : Open quote body)
      (hcloses : ¬ Open quote (body ++ [quote])) : Literal quote (body ++ [quote]) rest
  | unclosed {body : Text} (hopen : Open quote body) : Literal quote body []

/-- Kind and text of a token, and what follows it. The kind is told by the first
character, and a word is as long as it can be. -/
inductive Shape : TokenKind → Text → Text → Prop where
  | string {body rest : Text} (h : Literal '"' body rest) : Shape .string ('"' :: body) rest
  | char {body rest : Text} (h : Literal '\'' body rest) : Shape .char ('\'' :: body) rest
  | operator {c : Char} (h : c ∈ operators) (rest : Text) : Shape .operator [c] rest
  | numeric {c : Char} {tail rest : Text} (hdigit : '0' ≤ c ∧ c ≤ '9')
      (htail : ∀ d ∈ tail, isWordChar d = true) (hrest : EndsWord rest) :
      Shape .numeric (c :: tail) rest
  | identifier {c : Char} {tail rest : Text} (hquote : ¬ IsQuote c) (hoperator : c ∉ operators)
      (hdigit : ¬ ('0' ≤ c ∧ c ≤ '9')) (hblank : isBlank c = false) (hslash : c ≠ '\\')
      (htail : ∀ d ∈ tail, isWordChar d = true) (hrest : EndsWord rest) :
      Shape .identifier (c :: tail) rest

theorem Shape.ne_nil {kind : TokenKind} {word rest : Text} (h : Shape kind word rest) :
    word ≠ [] := by
  cases h <;> nofun

theorem literal_literalTail {quote : Char} (hquote : quote ≠ '\\') (text : Text) :
    ∃ rest, text = literalTail quote text ++ rest ∧
      Literal quote (literalTail quote text) rest := by
  rcases literal_cases hquote text with ⟨hopen, htail⟩ | ⟨body, rest, rfl, hopen, hclosed⟩
  · rw [htail]
    exact ⟨[], (List.append_nil text).symm, .unclosed hopen⟩
  · rw [hclosed]
    refine ⟨rest, by simp, .closed hopen fun hopen' => ?_⟩
    -- If the quote left the literal open, more of the text would belong to it.
    have hlast : (body ++ [quote]).getLast? ≠ some '\\' := by
      rw [List.getLast?_concat]
      exact fun heq => hquote (Option.some.inj heq)
    have hlong := hopen'.literalTail_append hlast [quote]
    rw [List.append_assoc, List.singleton_append, hclosed] at hlong
    have hnil := List.self_eq_append_right.mp hlong
    rw [literalTail_cons hquote, if_pos rfl] at hnil
    cases hnil

/-- **What is taken for a token has the shape of one**, if it does not begin with a gap. -/
theorem shape_lexeme {c : Char} {rest : Text} (h : dropGap .between (c :: rest) = c :: rest) :
    ∃ behind, c :: rest = (lexeme c rest).2 ++ behind ∧
      Shape (lexeme c rest).1 (lexeme c rest).2 behind := by
  obtain ⟨hblank, hslash, -⟩ := stop_of_dropGap h
  by_cases hstring : c = '"'
  · subst hstring
    obtain ⟨behind, hcut, hliteral⟩ := literal_literalTail hslash rest
    exact ⟨behind, congrArg (List.cons '"') hcut, .string hliteral⟩
  · by_cases hchar : c = '\''
    · subst hchar
      obtain ⟨behind, hcut, hliteral⟩ := literal_literalTail hslash rest
      exact ⟨behind, congrArg (List.cons '\'') hcut, .char hliteral⟩
    · by_cases hoperator : c ∈ operators
      · rw [lexeme_operator hoperator]
        exact ⟨rest, rfl, .operator hoperator rest⟩
      · have htail : ∀ d ∈ rest.takeWhile isWordChar, isWordChar d = true :=
          fun d hd => List.mem_takeWhile_imp hd
        have hcut : c :: rest = c :: rest.takeWhile isWordChar ++ rest.dropWhile isWordChar := by
          rw [List.cons_append, List.takeWhile_append_dropWhile]
        have hends := endsWord_dropWhile rest
        refine ⟨rest.dropWhile isWordChar, ?_, ?_⟩
        · rw [lexeme, if_neg hstring, if_neg hchar, if_neg hoperator]
          exact hcut
        · rw [lexeme, if_neg hstring, if_neg hchar, if_neg hoperator]
          by_cases hdigit : '0' ≤ c ∧ c ≤ '9'
          · rw [if_pos hdigit]
            exact .numeric hdigit htail hends
          · rw [if_neg hdigit]
            have hquote : ¬ IsQuote c := fun hq => hq.elim hstring hchar
            exact .identifier hquote hoperator hdigit hblank hslash htail hends

end Token

end BitLayout
