import BitLayout.Text.Basic

/-!
# Tokens

The tokens of a format description: words, numbers, string and character literals, and operators
of one character. A token knows where it starts. There is no token for the end of the input: a
reader that looks for a token gets `none` there, and a `Want` can ask for that too.

Between tokens stands a gap: blanks, a backslash together with the character after it, comments
from `//` through the end of the line, and comments from `/*` through the first `*/` after it.
Behind the gap a token begins with any character at all, and that character decides its kind. A
literal runs through the first unescaped quote of its own sort, an operator is one character, and
everything else is a word: the longest run of ASCII letters, digits and underscores behind its
first character.

`Token.first?` finds the first token and where it lies; the text up to its end is never empty
(`Token.stop_of_first?`), which is why reading token after token ends.
-/

namespace BitLayout

/-- The sorts of tokens; the first character of a token decides which it is. -/
inductive TokenKind where
  | identifier
  | string
  | char
  | numeric
  | operator
  deriving Repr, DecidableEq

/-- A piece of a description that means something, and where it stands. -/
structure Token where
  kind : TokenKind
  text : Text
  /-- The position of the first character. -/
  offset : Nat
  deriving Repr, DecidableEq

def Token.stop (token : Token) : Nat :=
  token.offset + token.text.length

/-! ## What stands at a place

The end of the input has no kind, the empty text and the position minus one. -/

/-- The kind of what stands at a place; the end of the input has none. -/
abbrev Token.kind? (found : Option Token) : Option TokenKind :=
  found.map Token.kind

def Token.textOf : Option Token → Text
  | some token => token.text
  | none => []

/-- The position reported for what stands at a place. -/
def Token.offsetOf : Option Token → Int
  | some token => token.offset
  | none => -1

inductive Want where
  /-- A token of this kind, or the end of the input. -/
  | kind (kind : Option TokenKind)
  /-- This very text; the empty text asks for the end of the input. -/
  | text (text : Text)
  deriving Repr, DecidableEq

def Want.accepts : Want → Option Token → Bool
  | .kind k, found => Token.kind? found == k
  | .text t, found => Token.textOf found == t

namespace Token

/-! ## Gaps -/

def isBlank (c : Char) : Bool :=
  c == ' ' || c == '\t' || c == '\r' || c == '\n'

inductive GapPart where
  | between
  | lineComment
  | blockComment
  deriving Repr, DecidableEq

-- The tag has the equations made here, once for all proofs about gaps.
/-- The text behind the rest of a gap. An unfinished comment is part of the gap, and so is a
backslash at the very end. -/
@[grind =] def dropGap : GapPart → Text → Text
  | _, [] => []
  | .between, '\\' :: [] => []
  | .between, '\\' :: _ :: t => dropGap .between t
  | .between, '/' :: '/' :: t => dropGap .lineComment t
  | .between, '/' :: '*' :: t => dropGap .blockComment t
  | .between, c :: t => if isBlank c then dropGap .between t else c :: t
  | .lineComment, c :: t => dropGap (if c = '\n' then .between else .lineComment) t
  | .blockComment, '*' :: '/' :: t => dropGap .between t
  | .blockComment, _ :: t => dropGap .blockComment t

/-! ## Lexemes -/

def operators : Text :=
  ['+', '-', '*', '/', '%', '=', '<', '>', '!', '~', '&', '|', '^', ';', ',', '.', '?', ':',
   '(', ')', '[', ']', '{', '}', '#']

def isWordChar (c : Char) : Bool :=
  c.isAlphanum || c == '_'

/-- What of a text belongs to a literal whose quote was just read: everything through the closing
quote, or all of it. A backslash takes the character after it along. -/
def literalTail (quote : Char) : Text → Text
  | [] => []
  | ['\\'] => ['\\']
  | '\\' :: c :: t => '\\' :: c :: literalTail quote t
  | c :: t => if c = quote then [c] else c :: literalTail quote t

/-- Kind and text of the token that begins with `c`, with `rest` behind it. -/
def lexeme (c : Char) (rest : Text) : TokenKind × Text :=
  if c = '"' then (.string, c :: literalTail c rest)
  else if c = '\'' then (.char, c :: literalTail c rest)
  else if c ∈ operators then (.operator, [c])
  else (if '0' ≤ c ∧ c ≤ '9' then .numeric else .identifier, c :: rest.takeWhile isWordChar)

/-- The first token of a text that itself begins at position `start`. -/
def first? (start : Nat) (text : Text) : Option Token :=
  match dropGap .between text with
  | [] => none
  | c :: rest =>
    let found := lexeme c rest
    some ⟨found.1, found.2, start + (text.length - (rest.length + 1))⟩

/-! ## Where the first token lies -/

theorem length_dropGap_le (part : GapPart) (text : Text) :
    (dropGap part text).length ≤ text.length := by
  fun_induction dropGap part text <;> simp_all <;> omega

theorem length_literalTail_le (quote : Char) (text : Text) :
    (literalTail quote text).length ≤ text.length := by
  fun_induction literalTail quote text <;> simp_all

theorem length_lexeme_le (c : Char) (rest : Text) :
    (lexeme c rest).2.length ≤ rest.length + 1 := by
  unfold lexeme
  have htail := length_literalTail_le c rest
  have hword := (List.takeWhile_sublist isWordChar (l := rest)).length_le
  split
  · simpa using htail
  · split
    · simpa using htail
    · split
      · simp
      · simpa using hword

theorem length_lexeme_pos (c : Char) (rest : Text) : 0 < (lexeme c rest).2.length := by
  unfold lexeme
  split
  · simp
  · split
    · simp
    · split <;> simp

/-- A first token begins inside the text, is not empty, and ends inside the text. -/
theorem stop_of_first? {start : Nat} {text : Text} {token : Token}
    (h : first? start text = some token) :
    start ≤ token.offset ∧ token.offset < token.stop ∧ token.stop ≤ start + text.length := by
  unfold first? at h
  split at h
  · cases h
  · next c rest hgap =>
    have hle := length_dropGap_le .between text
    have hlex := length_lexeme_le c rest
    have hpos := length_lexeme_pos c rest
    rw [hgap, List.length_cons] at hle
    cases h
    simp only [stop]
    omega

end Token

end BitLayout
