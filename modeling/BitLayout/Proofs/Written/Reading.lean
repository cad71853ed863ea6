import BitLayout.Proofs.Document.NamedLine
import BitLayout.Proofs.Written.Members

/-!
# Reading written descriptions

A cursor in front of a written declaration reads it and then faces the
lines below (`readItem_text`). How far it has moved by then depends on the
declaration: a macro and a field take their line to its end, an enumeration
only looks past its semicolons, into the lines below, and steps back if
none of them goes on with one. No line does, whatever is written on it
(`noSemicolon_ended`).

What stands between declarations is a gap, so the loop over items is an
induction over lines, of which only those with a declaration are a round of
it (`readItems_text`).
-/

namespace BitLayout

namespace Written

open Token (EndsWord Front)

/-! ## Gaps -/

theorem dropGap_filler (filler : Filler) (rest : Text) :
    Token.dropGap .between (filler.text ++ rest) = Token.dropGap .between rest := by
  cases filler with
  | space => exact Token.dropGap_blank rfl
  | tab => exact Token.dropGap_blank rfl
  | comment body closed =>
    have hclosed := Token.dropGap_closed closed rest
    simpa [Filler.text, Token.dropGap] using hclosed

theorem dropGap_fillers (fillers : List Filler) (rest : Text) :
    Token.dropGap .between (fillers.flatMap Filler.text ++ rest) =
      Token.dropGap .between rest := by
  induction fillers with
  | nil => rfl
  | cons filler fillers ih =>
    rw [List.flatMap_cons, List.append_assoc, dropGap_filler, ih]

/-! ## Macros -/

theorem matchAll_define {cursor : Cursor} {name : Identifier} {numeral rest : Text}
    (h : cursor.Faces
      (['d', 'e', 'f', 'i', 'n', 'e'] ++ ' ' :: (name.text ++ ' ' :: (numeral ++ rest))))
    (hnumeral : Front (numeral ++ rest) .numeric numeral rest) :
    ∃ offset later, cursor.matchAll
        [.text ['d', 'e', 'f', 'i', 'n', 'e'], .kind (some .identifier), .kind (some .numeric)] =
          ([['d', 'e', 'f', 'i', 'n', 'e'], name.text, numeral], later) ∧
      later.ended = false ∧ later.pos = offset + numeral.length ∧
      later.buffer.drop offset = Text.trimRight (numeral ++ rest) := by
  have hdefine : Front
      (['d', 'e', 'f', 'i', 'n', 'e'] ++ ' ' :: (name.text ++ ' ' :: (numeral ++ rest))) .identifier
      ['d', 'e', 'f', 'i', 'n', 'e'] (' ' :: (name.text ++ ' ' :: (numeral ++ rest))) :=
    Front.of_word (by decide) rfl (EndsWord.of_cons rfl _)
  have hname : Front (' ' :: (name.text ++ ' ' :: (numeral ++ rest))) .identifier name.text
      (' ' :: (numeral ++ rest)) :=
    (name.front (EndsWord.of_cons rfl _)).blank rfl
  obtain ⟨first, behind, hnext, hbehind, -⟩ := h.next hdefine
  obtain ⟨second, named, hnext', hnamed, -⟩ := hbehind.next hname
  obtain ⟨offset, later, hnext'', hended, hpos, hdrop⟩ := hnamed.next_offset (hnumeral.blank rfl)
  refine ⟨offset, later, ?_, hended, hpos, hdrop⟩
  simp only [Cursor.matchAll, Cursor.matchedTexts, hnext, hnext', hnext'']
  rfl

/-- What is left of the line of a macro is nothing, so it ends the line. -/
theorem readDefine_text {cursor : Cursor} {name : Identifier} {number : Number}
    (hnonneg : 0 ≤ number.value) {rest : Text}
    (h : cursor.Faces (['d', 'e', 'f', 'i', 'n', 'e'] ++ ' ' :: (name.text ++ ' ' ::
      (number.text ++ '\n' :: rest)))) :
    ∃ later, Document.readDefine cursor = .ok (.define name.text number.value, later) ∧
      later.Faces rest := by
  obtain ⟨radix, value, short⟩ := number
  obtain ⟨value, rfl⟩ := Int.eq_ofNat_of_zero_le hnonneg
  rw [Number.text, Numeral.render_of_nonneg (Int.not_lt.mpr hnonneg), Int.natAbs_natCast] at h
  have hnumeral : Front (radix.mark ++ Numeral.digits radix value ++ '\n' :: rest) .numeric
      (radix.mark ++ Numeral.digits radix value) ('\n' :: rest) :=
    numeral_front radix value (EndsWord.of_cons rfl _)
  obtain ⟨offset, behind, hmatch, hended, hpos, hdrop⟩ := matchAll_define h hnumeral
  have hread : Numeral.read .dec (radix.mark ++ Numeral.digits radix value) = .ok value :=
    Numeral.read_mark_digits (Or.inr rfl) short
  have hline : behind.buffer.drop offset =
      Text.trimRight (radix.mark ++ Numeral.digits radix value ++ ([] ++ '\n' :: rest)) := hdrop
  obtain ⟨hbelow, -⟩ := Cursor.split_line hended hline hpos (numeral_ne_nil radix value)
    (all_numeral radix value) List.not_mem_nil (Option.some_ne_none _).symm
  refine ⟨(behind.split ['\n']).2, ?_, hbelow⟩
  simp only [Document.readDefine, hmatch, hread]

/-! ## Enumerations -/

/-- The first token of the text is no semicolon. -/
def NoSemicolon (text : Text) : Prop :=
  ∀ c t, Token.dropGap .between text = c :: t → c ≠ ';'

theorem keyword_front (tag : Option Identifier) (members : List Member) (rest : Text) :
    Front (Enumeration.keyword ++ (optional tag ++ (block members ++ rest))) .identifier
      Enumeration.keyword (optional tag ++ (block members ++ rest)) := by
  refine Front.of_word (by decide) rfl ?_
  cases tag with
  | none => exact EndsWord.of_cons rfl _
  | some name => exact EndsWord.of_cons rfl _

theorem skipSemicolons_text {cursor : Cursor} {rest : Text} (h : cursor.Faces (';' :: '\n' :: rest))
    (hrest : NoSemicolon rest) :
    (Document.skipSemicolons cursor).Faces rest := by
  obtain ⟨middle, htake, hmiddle⟩ :=
    h.exhaust_take (Front.of_operator (c := ';') (by decide) (by decide))
  have hbelow : middle.Faces rest := hmiddle.congr (Token.dropGap_blank rfl).symm
  rw [Document.skipSemicolons, htake]
  exact hbelow.exhaust_none hrest

theorem readEnumeration_text (start : Nat) {cursor : Cursor} {tag : Option Identifier}
    {members : List Member} {rest : Text}
    (h : cursor.Faces (optional tag ++ (block members ++ ';' :: '\n' :: rest)))
    (hrest : NoSemicolon rest) :
    ∃ later, Document.readEnumeration start cursor =
      .ok ((Declaration.enumeration tag members).item, later) ∧ later.Faces rest := by
  obtain ⟨behind, hbody, hbehind⟩ := readBody_text h
  refine ⟨Document.skipSemicolons behind, ?_, skipSemicolons_text hbehind hrest⟩
  simp only [Document.readEnumeration, hbody]
  rfl

theorem readTypedef_text {cursor : Cursor} {tag second : Option Identifier}
    {members : List Member} {rest : Text}
    (h : cursor.Faces (' ' :: (Enumeration.keyword ++
      (optional tag ++ (block members ++ (optional second ++ ';' :: '\n' :: rest))))))
    (hrest : NoSemicolon rest) :
    ∃ later, Document.readTypedef cursor =
      .ok ((Declaration.typedef tag second members).item, later) ∧ later.Faces rest := by
  have hkeyword := (keyword_front tag members (optional second ++ ';' :: '\n' :: rest)).blank
    (c := ' ') rfl
  obtain ⟨offset, start, hwant, hstart⟩ :=
    h.want_take hkeyword (w := .text Enumeration.keyword) (fun _ => rfl)
  obtain ⟨behind, hbody, hbehind⟩ := readBody_text hstart
  obtain ⟨last, htag, hlast⟩ :=
    readTag_text hbehind (Front.of_operator (by decide) (by decide)) (EndsWord.of_cons rfl _)
  have hread : Enumeration.read cursor =
      (.ok ⟨tag.map Identifier.text, table members⟩, behind) := by
    rw [Enumeration.read, hwant]
    exact hbody
  refine ⟨Document.skipSemicolons last, ?_, skipSemicolons_text hlast hrest⟩
  simp only [Document.readTypedef, hread, htag]
  rfl

/-! ## Fields -/

theorem FieldLine.named (line : FieldLine) : line.field.describe.NamedLine :=
  ⟨line.head, line.not_keyword, line.oneLine, line.unescaped⟩

theorem readField_text {cursor : Cursor} {line : FieldLine} {rest : Text}
    (h : cursor.Faces (line.field.describe ++ '\n' :: rest)) :
    ∃ token behind later, cursor.next = (some token, behind) ∧
      Document.readItem token behind = .ok ((Declaration.field line).item, later) ∧
      later.Faces rest := by
  obtain ⟨offset, behind, hnext, hgives⟩ := Document.readItem_named line.named h
  rw [line.readBack] at hgives
  generalize hitem : Document.readItem _ behind = reading at hgives
  obtain ⟨hlater⟩ := hgives
  exact ⟨_, behind, _, hnext, hitem, hlater⟩

/-! ## Declarations -/

/-- **Declarations are read back**, each as its own item, whatever is written on
the lines below. -/
theorem readItem_text {cursor : Cursor} {declaration : Declaration} {rest : Text}
    (h : cursor.Faces (declaration.text ++ '\n' :: rest))
    (hrest : NoSemicolon rest) :
    ∃ token behind later, cursor.next = (some token, behind) ∧
      Document.readItem token behind = .ok (declaration.item, later) ∧ later.Faces rest := by
  cases declaration with
  | define name number nonneg =>
    have htext : (Declaration.define name number nonneg).text ++ '\n' :: rest =
        '#' :: (['d', 'e', 'f', 'i', 'n', 'e'] ++ ' ' :: (name.text ++ ' ' ::
          (number.text ++ '\n' :: rest))) := by
      simp only [Declaration.text, List.append_assoc, List.cons_append, List.nil_append]
    rw [htext] at h
    obtain ⟨offset, behind, hnext, hbehind, -⟩ :=
      h.next (Front.of_operator (by decide) (by decide))
    obtain ⟨later, hread, hlater⟩ := readDefine_text nonneg hbehind
    refine ⟨_, behind, later, hnext, ?_, hlater⟩
    simp only [Document.readItem, if_true, hread, Declaration.item]
  | enumeration tag members =>
    have htext : (Declaration.enumeration tag members).text ++ '\n' :: rest =
        Enumeration.keyword ++ (optional tag ++ (block members ++ ';' :: '\n' :: rest)) := by
      simp only [Declaration.text, List.append_assoc, List.cons_append, List.nil_append]
    rw [htext] at h
    obtain ⟨offset, behind, hnext, hbehind, -⟩ := h.next (keyword_front tag members _)
    obtain ⟨later, hread, hlater⟩ := readEnumeration_text offset hbehind hrest
    exact ⟨_, behind, later, hnext, hread, hlater⟩
  | typedef tag second members =>
    have htext : (Declaration.typedef tag second members).text ++ '\n' :: rest =
        ['t', 'y', 'p', 'e', 'd', 'e', 'f'] ++ ' ' :: (Enumeration.keyword ++
          (optional tag ++ (block members ++ (optional second ++ ';' :: '\n' :: rest)))) := by
      simp only [Declaration.text, List.append_assoc, List.cons_append, List.nil_append]
    rw [htext] at h
    obtain ⟨offset, behind, hnext, hbehind, -⟩ :=
      h.next (Front.of_word (by decide) rfl (EndsWord.of_cons rfl _))
    obtain ⟨later, hread, hlater⟩ := readTypedef_text hbehind hrest
    exact ⟨_, behind, later, hnext, hread, hlater⟩
  | field line => exact readField_text h

/-! ## Lines -/

/-- The lines, each with its end. -/
def ended (lines : List Line) : Text :=
  lines.flatMap fun line => line.text ++ ['\n']

theorem ended_cons (line : Line) (lines : List Line) :
    ended (line :: lines) =
      line.fillers.flatMap Filler.text ++ (line.content.text ++ '\n' :: ended lines) := by
  simp only [ended, Line.text, List.flatMap_cons, List.append_assoc, List.cons_append,
    List.nil_append]

theorem dropGap_comment {body : Text} (h : '\n' ∉ body) (rest : Text) :
    Token.dropGap .between ('/' :: '/' :: body ++ '\n' :: rest) =
      Token.dropGap .between rest :=
  Token.dropGap_line h rest

theorem Declaration.head (declaration : Declaration) :
    ∃ c t, declaration.text = c :: t ∧ (c = '#' ∨ Token.isWordChar c = true) := by
  cases declaration with
  | define => exact ⟨'#', _, rfl, Or.inl rfl⟩
  | enumeration => exact ⟨'e', _, rfl, Or.inr rfl⟩
  | typedef => exact ⟨'t', _, rfl, Or.inr rfl⟩
  | field line =>
    obtain ⟨c, t, hline, hc⟩ := line.named.exists_cons
    exact ⟨c, t, hline, Or.inr hc⟩

/-- No line begins with a semicolon, and neither do the lines below. -/
theorem noSemicolon_ended (lines : List Line) : NoSemicolon (ended lines) := by
  induction lines with
  | nil => rintro c t ⟨⟩
  | cons line lines ih =>
    obtain ⟨fillers, content⟩ := line
    intro c t hgap
    rw [ended_cons, dropGap_fillers] at hgap
    cases content with
    | nothing => exact ih c t ((Token.dropGap_blank rfl).symm.trans hgap)
    | comment body oneLine => exact ih c t ((dropGap_comment oneLine _).symm.trans hgap)
    | declaration item =>
      obtain ⟨d, others, htext, hd⟩ := item.head
      have hstop : Token.dropGap .between (d :: (others ++ '\n' :: ended lines)) =
          d :: (others ++ '\n' :: ended lines) := by
        rcases hd with rfl | hd
        · exact (Front.of_operator (by decide) (by decide)).gap
        · exact Token.dropGap_of_stop (Token.not_blank_of_wordChar hd)
            (Token.not_wordChar hd rfl) fun heq => absurd heq (Token.not_wordChar hd rfl)
      simp only [Content.text, htext, List.cons_append, hstop] at hgap
      obtain ⟨rfl, -⟩ := List.cons.inj hgap
      rcases hd with rfl | hd
      · decide
      · exact Token.not_wordChar hd rfl

theorem readItems_text {lines : List Line} {cursor : Cursor} (h : cursor.Faces (ended lines)) :
    Document.readItems cursor = .ok ((declarations lines).map Declaration.item) := by
  induction lines generalizing cursor with
  | nil =>
    have hnone := (Cursor.next_of_ahead_nil h).1
    exact Document.readItems_of_none (Prod.ext hnone rfl)
  | cons line lines ih =>
    have hface : cursor.Faces (line.content.text ++ '\n' :: ended lines) := by
      refine h.congr ?_
      rw [ended_cons, dropGap_fillers]
    obtain ⟨fillers, content⟩ := line
    cases content with
    | nothing => exact ih (hface.congr (Token.dropGap_blank rfl).symm)
    | comment body oneLine => exact ih (hface.congr (dropGap_comment oneLine _).symm)
    | declaration item =>
      obtain ⟨token, behind, later, hnext, hread, hlater⟩ :=
        readItem_text hface (noSemicolon_ended lines)
      rw [Document.readItems_of_some hnext, hread]
      simp only [ih hlater]
      rfl

theorem trimRight_ended (lines : List Line) :
    Text.trimRight (ended lines) = Text.trimRight (text lines) := by
  rw [text, Text.trimRight_joinWith, List.flatMap_map, ended]

/-- **Descriptions are read back**: what is written down is read as the items of
its declarations, whatever stands around them. -/
theorem read_text (lines : List Line) :
    Document.read (text lines) = .ok ((declarations lines).map Declaration.item) := by
  have hcursor : Cursor.ofText (text lines) = Cursor.ofText (ended lines) := by
    rw [Cursor.ofText, Cursor.ofText, trimRight_ended]
  rw [Document.read, hcursor]
  exact readItems_text (Cursor.faces_ofText (ended lines))

end Written

end BitLayout
