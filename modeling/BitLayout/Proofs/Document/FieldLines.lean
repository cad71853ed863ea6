import BitLayout.Proofs.Document.Lines
import BitLayout.Proofs.Field.LineFeeds

/-!
# Lines of fields in a description

Lines that fields are written on are read as these fields, one item for each
(`readItems_describe`), if every line begins as that of a field does
(`Text.BeginsField`), and every line but the last one ends where the line
feed behind it stands (`Text.EndsThere`). A literal at the front that is
not closed, and a backslash at the end, do no harm on the last line.

The first token decides. It is found at the front of its line whatever stands
below, unless it is a literal that is open to the end of the line
(`Token.lexeme_cases`); and behind it there is no line feed but the one that
ends the line, since all others are quoted.
-/

namespace BitLayout

namespace Text

open Token (IsQuote)

/-! ## Lines that stand for themselves -/

/-- The first token of the line stands at its front and does not begin a
definition. -/
def BeginsField (line : Text) : Prop :=
  ∃ token ∈ Token.first? 0 line, token.offset = 0 ∧ token.text ∉ Field.directives

/-- A line feed behind the line ends it: it does not become a part of the first token,
and no backslash stands before it. -/
def EndsThere (line : Text) : Prop :=
  Token.first? 0 (line ++ ['\n']) = Token.first? 0 line ∧ line.getLast? ≠ some '\\'

instance (line : Text) : Decidable line.BeginsField :=
  inferInstanceAs (Decidable (∃ token ∈ Token.first? 0 line, _))

instance (line : Text) : Decidable line.EndsThere :=
  inferInstanceAs (Decidable (_ ∧ _))

theorem BeginsField.exists_lexeme {line : Text} (h : line.BeginsField) :
    ∃ c rest, line = c :: rest ∧ Token.dropGap .between line = line ∧
      (Token.lexeme c rest).2 ∉ Field.directives := by
  obtain ⟨token, hfirst, hoffset, hword⟩ := h
  have hsuffix := Token.dropGap_suffix .between line
  rw [Token.first?] at hfirst
  split at hfirst
  · cases hfirst
  · next c rest hgap =>
    obtain rfl := Option.some.inj hfirst
    have hlength := hsuffix.length_le
    have hzero : line.length - (rest.length + 1) = 0 := (Nat.zero_add _).symm.trans hoffset
    rw [hgap] at hsuffix hlength
    have hline : c :: rest = line := hsuffix.eq_of_length (by
      rw [List.length_cons] at hlength ⊢
      omega)
    exact ⟨c, rest, hline.symm, hgap.trans hline, hword⟩

/-- A line that ends there does not begin with an open literal. -/
theorem EndsThere.not_open {c : Char} {rest : Text} (h : EndsThere (c :: rest))
    (hgap : Token.dropGap .between (c :: rest) = c :: rest) (hquote : IsQuote c)
    (hopen : Token.Open c rest) : False := by
  have hfeed : Token.literalTail c ['\n'] = ['\n'] := by
    rw [Token.literalTail_cons (by decide), if_neg (hquote.ne (by simp [IsQuote]))]
    rfl
  have hlast : rest.getLast? ≠ some '\\' := by
    intro hlast
    exact h.2 (by rw [List.getLast?_cons, hlast]; rfl)
  have hgap' : Token.dropGap .between (c :: (rest ++ ['\n'])) = c :: (rest ++ ['\n']) :=
    Token.dropGap_append_lineFeed hgap []
  have hfirst := h.1
  rw [List.cons_append, Token.first?_of_gap hgap', Token.first?_of_gap hgap] at hfirst
  have hword := congrArg (Option.map Token.text) hfirst
  have hlonger : Token.literalTail c (rest ++ ['\n']) = Token.literalTail c (rest ++ []) := by
    rw [List.append_nil]
    have hsame := Option.some.inj hword
    dsimp only at hsame
    rw [Token.lexeme_quote hquote, Token.lexeme_quote hquote] at hsame
    exact (List.cons.inj hsame).2
  rw [hopen.literalTail_append hlast, hopen.literalTail_append hlast, hfeed] at hlonger
  exact absurd (List.append_cancel_left hlonger) (by simp [Token.literalTail])

theorem FeedsQuoted.no_pair {line : Text} (h : line.FeedsQuoted) :
    ¬ ['\\', '\n'] <:+: line := by
  rintro ⟨front, back, rfl⟩
  obtain ⟨quote, rest, hline, hquote, hsheltered⟩ := h (by simp)
  cases front with
  | nil =>
    obtain ⟨rfl, -⟩ := List.cons.inj hline
    exact absurd hquote (by simp [IsQuote])
  | cons c front =>
    rw [List.append_assoc, List.cons_append] at hline
    obtain ⟨rfl, rfl⟩ := List.cons.inj hline
    exact (hsheltered (front ++ ['\\']) back (by simp)).2 (by simp)

/-- Behind its first token a line has no line feed. -/
theorem FeedsQuoted.not_mem_tail {c : Char} {rest tail behind : Text}
    (h : FeedsQuoted (c :: rest)) (hrest : rest = tail ++ behind)
    (hword : (Token.lexeme c rest).2 = c :: tail) : '\n' ∉ behind := by
  intro hmem
  have hline : '\n' ∈ c :: rest := by
    rw [hrest]
    exact List.mem_cons_of_mem c (List.mem_append_right tail hmem)
  obtain ⟨quote, others, heq, hquote, hsheltered⟩ := h hline
  obtain ⟨rfl, rfl⟩ := List.cons.inj heq
  obtain ⟨front, back, rfl⟩ := List.append_of_mem hmem
  obtain ⟨hopen, hlast⟩ := hsheltered (tail ++ front) back (by rw [hrest, List.append_assoc])
  have htail : Token.literalTail c rest = tail :=
    (List.cons.inj ((Token.lexeme_quote hquote rest).symm.trans hword)).2
  have hlong := hopen.literalTail_append hlast ('\n' :: back)
  rw [List.append_assoc, ← hrest, htail] at hlong
  have hlength := congrArg List.length hlong
  have hne : Token.literalTail c ('\n' :: back) ≠ [] := by
    rw [Token.literalTail_cons (by decide)]
    split
    · exact nofun
    · exact nofun
  have hpos := List.length_pos_of_ne_nil hne
  simp only [List.length_append] at hlength
  omega

end Text

namespace Token

/-- The first token of the line of a field, and what stands behind it. If the line
ends there, so it is with other lines below. -/
structure FieldFront (line : Text) (kind : TokenKind) (word tail : Text) : Prop where
  cut : line = word ++ tail
  field : word ∉ Field.directives
  oneLine : '\n' ∉ tail
  alone : Front line kind word tail
  visible : line.EndsThere →
    ∃ front last, word = front ++ [last] ∧ Text.isSpace last = false ∧ last ≠ '\\'
  above : line.EndsThere → ∀ rest, Front (line ++ '\n' :: rest) kind word (tail ++ '\n' :: rest)

/-- A literal that is open to the end of the line is all of the line, and the line does
not end there. -/
theorem fieldFront_open {c : Char} {rest : Text} (htrimmed : Text.Trimmed (c :: rest))
    (hgap : dropGap .between (c :: rest) = c :: rest)
    (hfield : (lexeme c rest).2 ∉ Field.directives) (hquote : IsQuote c) (hopen : Open c rest)
    (hword : (lexeme c rest).2 = c :: rest) :
    FieldFront (c :: rest) (lexeme c rest).1 (c :: rest) [] := by
  have hnot : ¬ Text.EndsThere (c :: rest) := fun h => h.not_open hgap hquote hopen
  have hline : c :: rest = c :: rest ++ [] := (List.append_nil _).symm
  have hlast : Text.isSpace ((c :: rest).getLast (List.cons_ne_nil c rest)) = false :=
    htrimmed.back _ (List.getLast?_eq_some_getLast _)
  refine ⟨hline, hword ▸ hfield, List.not_mem_nil, ⟨hgap.trans hline, ?_, ?_⟩,
    fun h => absurd h hnot, fun h => absurd h hnot⟩
  · exact ⟨_, _, (List.dropLast_concat_getLast (List.cons_ne_nil c rest)).symm, hlast⟩
  · rintro d others shorter ⟨rfl, rfl⟩ hshorter
    obtain rfl := List.prefix_nil.mp hshorter
    rw [List.append_nil]
    exact Prod.ext rfl hword

/-- Another token ends in a visible character, whatever follows. -/
theorem fieldFront_closed {c : Char} {tail behind : Text}
    (hvisible : Text.isSpace c = false) (hquoted : Text.FeedsQuoted (c :: (tail ++ behind)))
    (hgap : dropGap .between (c :: (tail ++ behind)) = c :: (tail ++ behind))
    (hfield : (lexeme c (tail ++ behind)).2 ∉ Field.directives)
    (hlast : ∀ d, (c :: tail).getLast? = some d → d = c ∨ isWordChar d = true)
    (hends : ∀ other, (EndsWord behind → EndsWord other) →
      lexeme c (tail ++ other) = ((lexeme c (tail ++ behind)).1, c :: tail)) :
    FieldFront (c :: (tail ++ behind)) (lexeme c (tail ++ behind)).1 (c :: tail) behind := by
  have hword : (lexeme c (tail ++ behind)).2 = c :: tail :=
    congrArg Prod.snd (hends behind id)
  have hend : ∃ front last, c :: tail = front ++ [last] ∧ Text.isSpace last = false ∧
      last ≠ '\\' := by
    refine ⟨_, _, (List.dropLast_concat_getLast (List.cons_ne_nil c tail)).symm, ?_⟩
    rcases hlast _ (List.getLast?_eq_some_getLast _) with heq | hchar
    · rw [heq]
      exact ⟨hvisible, (stop_of_dropGap hgap).2.1⟩
    · exact ⟨visible_of_wordChar hchar, not_wordChar hchar rfl⟩
  obtain ⟨front, last, hcut, hspace, hslash⟩ := hend
  refine ⟨rfl, hword ▸ hfield, hquoted.not_mem_tail rfl hword,
    ⟨hgap, ⟨front, last, hcut, hspace⟩, ?_⟩, fun _ => ⟨front, last, hcut, hspace, hslash⟩,
    fun _ rest => ⟨?_, ⟨front, last, hcut, hspace⟩, ?_⟩⟩
  · rintro d others shorter ⟨rfl, rfl⟩ hshorter
    exact hends shorter fun h => h.of_isPrefix hshorter
  · rw [dropGap_append_lineFeed hgap, List.cons_append, List.append_assoc]
    rfl
  · rintro d others shorter ⟨rfl, rfl⟩ hshorter
    refine hends shorter fun h => EndsWord.of_isPrefix ?_ hshorter
    cases behind with
    | nil => exact EndsWord.of_cons rfl rest
    | cons e behind => exact EndsWord.of_cons (h e behind rfl) _

theorem exists_fieldFront {line : Text} (htrimmed : line.Trimmed) (hquoted : line.FeedsQuoted)
    (hbegins : line.BeginsField) : ∃ kind word tail, FieldFront line kind word tail := by
  obtain ⟨c, rest, rfl, hgap, hfield⟩ := hbegins.exists_lexeme
  obtain ⟨-, hslash, -⟩ := stop_of_dropGap hgap
  rcases lexeme_cases hslash rest with ⟨hquote, hopen, hword⟩ | ⟨tail, behind, rfl, hlast, hends⟩
  · exact ⟨_, _, _, fieldFront_open htrimmed hgap hfield hquote hopen hword⟩
  · have hvisible := htrimmed.front c rfl
    exact ⟨_, _, _, fieldFront_closed hvisible hquoted hgap hfield hlast hends⟩

end Token

namespace Field

theorem Readable.ofContent?_describe {field : Field} (h : field.Readable) :
    ofContent? field.describe = some field := by
  obtain ⟨line, -, hline⟩ := h
  exact ofContent?_eq_some_iff.mpr (ofContent_describe hline)

theorem Readable.trimmed_describe {field : Field} (h : field.Readable) :
    field.describe.Trimmed := by
  obtain ⟨line, -, hline⟩ := h
  exact Field.trimmed_describe hline

theorem Readable.exists_front {field : Field} (h : field.Readable)
    (hbegins : field.describe.BeginsField) :
    ∃ kind word tail, Token.FieldFront field.describe kind word tail := by
  obtain ⟨line, hquoted, hline⟩ := h
  exact Token.exists_fieldFront (Field.trimmed_describe hline)
    (feedsQuoted_describe hquoted hline) hbegins

theorem Readable.no_pair {field : Field} (h : field.Readable) :
    ¬ ['\\', '\n'] <:+: field.describe := by
  obtain ⟨line, hquoted, hline⟩ := h
  exact (feedsQuoted_describe hquoted hline).no_pair

end Field

namespace Cursor

/-- The empty line at the top is a gap. -/
theorem Faces.below_empty {cursor : Cursor} {lines : List Text}
    (h : cursor.Faces (Text.joinWith ['\n'] ([] :: lines))) :
    cursor.Faces (Text.joinWith ['\n'] lines) := by
  refine h.congr ?_
  cases lines with
  | nil => rfl
  | cons line lines =>
    rw [Text.joinWith_cons_cons]
    exact (Token.dropGap_blank rfl).symm

end Cursor

namespace Document

open Token (FieldFront)

/-- A line with others below it. -/
theorem readItem_above {field : Field} {cursor : Cursor} {rest : Text} (hread : field.Readable)
    (hbegins : field.describe.BeginsField) (hends : field.describe.EndsThere)
    (h : cursor.Faces (field.describe ++ '\n' :: rest)) :
    ∃ token behind later, cursor.next = (some token, behind) ∧
      readItem token behind = .ok (fieldItem field, later) ∧ later.Faces rest := by
  obtain ⟨kind, word, tail, hfront⟩ := hread.exists_front hbegins
  obtain ⟨front, last, hword, hvisible, hslash⟩ := hfront.visible hends
  obtain ⟨offset, behind, hnext, hended, hpos, hdrop⟩ := h.next_offset (hfront.above hends rest)
  have hend : tail.getLast? ≠ some '\\' := by
    intro hlast
    refine hends.2 ?_
    rw [hfront.cut, List.getLast?_append, hlast]
    rfl
  rw [hword] at hdrop hpos
  obtain ⟨hbelow, hslice⟩ :=
    Cursor.split_visible hended hdrop hpos hvisible hslash hfront.oneLine hend
  rw [← hword, ← hfront.cut] at hslice
  have hgives := gives_readField hread.no_pair hslice hbelow
  rw [hread.ofContent?_describe, ← readItem_of_field hfront.field kind] at hgives
  generalize hitem : readItem ⟨kind, word, offset⟩ behind = reading at hgives
  obtain ⟨hlater⟩ := hgives
  exact ⟨_, behind, _, hnext, hitem, hlater⟩

/-- The last line. -/
theorem readItem_last {field : Field} {cursor : Cursor} (hread : field.Readable)
    (hbegins : field.describe.BeginsField) (h : cursor.Faces field.describe) :
    ∃ token behind later, cursor.next = (some token, behind) ∧
      readItem token behind = .ok (fieldItem field, later) ∧ later.Faces [] := by
  obtain ⟨kind, word, tail, hfront⟩ := hread.exists_front hbegins
  obtain ⟨offset, behind, hnext, -, hpos, hdrop⟩ := h.next_offset hfront.alone
  rw [← hfront.cut, hread.trimmed_describe.trimRight_eq, hfront.cut] at hdrop
  obtain ⟨hended, hslice⟩ := Cursor.split_end hdrop hpos hfront.oneLine
  rw [← hfront.cut] at hslice
  have hbelow : (behind.split ['\n']).2.Faces [] := Cursor.ahead_of_ended hended
  have hgives := gives_readField hread.no_pair (Or.inl hslice) hbelow
  rw [hread.ofContent?_describe, ← readItem_of_field hfront.field kind] at hgives
  generalize hitem : readItem ⟨kind, word, offset⟩ behind = reading at hgives
  obtain ⟨hlater⟩ := hgives
  exact ⟨_, behind, _, hnext, hitem, hlater⟩

/-- **Lines of fields are read back**, by induction over the fields: each line gives
the item of its field and leads to the next one. -/
theorem readItems_describe {fields : List Field} (hread : ∀ field ∈ fields, field.Readable)
    (hbegins : ∀ field ∈ fields, field.describe.BeginsField)
    (hends : ∀ line ∈ (fields.map Field.describe).dropLast, line.EndsThere) {cursor : Cursor}
    (h : cursor.Faces (Text.joinWith ['\n'] (fields.map Field.describe))) :
    readItems cursor = .ok (fields.map fieldItem) := by
  induction fields generalizing cursor with
  | nil => exact readItems_absent h rfl
  | cons field fields ih =>
    have hfield := hread field List.mem_cons_self
    have hfirst := hbegins field List.mem_cons_self
    have hothers : ∀ other ∈ fields, other.Readable := fun other hother =>
      hread other (List.mem_cons_of_mem field hother)
    cases fields with
    | nil =>
      obtain ⟨token, behind, later, hnext, hitem, hlater⟩ := readItem_last hfield hfirst h
      rw [readItems_of_some hnext, hitem]
      exact congrArg (Except.map _) (readItems_absent hlater rfl)
    | cons other fields =>
      rw [List.map_cons, List.map_cons, Text.joinWith_cons_cons] at h
      obtain ⟨token, behind, later, hnext, hitem, hlater⟩ :=
        readItem_above hfield hfirst (hends _ List.mem_cons_self) h
      rw [readItems_of_some hnext, hitem]
      have hrest := ih hothers (fun f hf => hbegins f (List.mem_cons_of_mem field hf))
        (fun line hline => hends line (List.mem_cons_of_mem _ hline)) hlater
      exact congrArg (Except.map _) hrest

end Document

end BitLayout
