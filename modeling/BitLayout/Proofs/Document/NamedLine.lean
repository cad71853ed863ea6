import BitLayout.Proofs.Cursor.Line
import BitLayout.Proofs.Document.Lines

/-!
# Lines that begin with a name

A line that begins with a letter or an underscore, and not with a keyword,
is the line of a field, whatever else stands on it: quotes, comments and
backslashes are a part of it if they do not escape its end
(`Text.NamedLine`). It is read as its field or refused, and the next line
lies ahead afterwards (`readItem_named`).

Lines are put together by what they add to the items (`Adds`). A named line
adds its field, a line of blanks nothing. Other white space is not skipped
between tokens, so it begins a line of its own, and as all of the line is
trimmed off, this is the line of a field without a name (`adds_white`). At
the end of a text there is no such line, since the text is trimmed there.
-/

namespace BitLayout

namespace Text

/-- A line that begins with a name and is not continued. -/
structure NamedLine (line : Text) : Prop where
  head : line.head?.any (fun c => Token.isWordChar c && !isAsciiDigit c) = true
  not_keyword : line.takeWhile Token.isWordChar ≠ Enumeration.keyword ∧
    line.takeWhile Token.isWordChar ≠ ['t', 'y', 'p', 'e', 'd', 'e', 'f']
  oneLine : '\n' ∉ line
  unescaped : line.getLast? ≠ some '\\'

instance (line : Text) : Decidable line.NamedLine :=
  decidable_of_iff
    (line.head?.any (fun c => Token.isWordChar c && !isAsciiDigit c) = true ∧
      (line.takeWhile Token.isWordChar ≠ Enumeration.keyword ∧
        line.takeWhile Token.isWordChar ≠ ['t', 'y', 'p', 'e', 'd', 'e', 'f']) ∧
      '\n' ∉ line ∧ line.getLast? ≠ some '\\')
    ⟨fun h => ⟨h.1, h.2.1, h.2.2.1, h.2.2.2⟩,
      fun h => ⟨h.head, h.not_keyword, h.oneLine, h.unescaped⟩⟩

/-- White space is no visible character. -/
theorem ne_of_space {c d : Char} (hc : isSpace c = true) (hd : isSpace d = false) : c ≠ d := by
  rintro rfl
  cases hc.symm.trans hd

theorem not_pair_of_oneLine {line : Text} (h : '\n' ∉ line) : ¬ ['\\', '\n'] <:+: line :=
  fun hin => h (hin.subset (by simp))

variable {line : Text}

theorem NamedLine.exists_cons (h : line.NamedLine) :
    ∃ c tail, line = c :: tail ∧ Token.isWordChar c = true := by
  obtain ⟨c, tail, rfl⟩ := List.exists_cons_of_ne_nil (ne_nil_of_head h.head)
  have hhead := h.head
  rw [List.head?_cons, Option.any_some] at hhead
  exact ⟨c, tail, rfl, (Bool.and_eq_true_iff.mp hhead).1⟩

theorem NamedLine.head_word (h : line.NamedLine) :
    (line.takeWhile Token.isWordChar).head?.any
      (fun c => Token.isWordChar c && !isAsciiDigit c) = true := by
  obtain ⟨c, tail, rfl, hc⟩ := h.exists_cons
  rw [List.takeWhile_cons_of_pos hc]
  exact h.head

theorem NamedLine.not_directive (h : line.NamedLine) :
    line.takeWhile Token.isWordChar ∉ Field.directives := by
  have hmark : line.takeWhile Token.isWordChar ≠ ['#'] := by
    intro heq
    have hhead := h.head_word
    rw [heq] at hhead
    cases hhead
  simp only [Field.directives, List.mem_cons, List.not_mem_nil, or_false, not_or]
  exact ⟨hmark, h.not_keyword⟩

theorem NamedLine.unescaped_tail (h : line.NamedLine) :
    (line.dropWhile Token.isWordChar).getLast? ≠ some '\\' := by
  intro hlast
  refine h.unescaped ?_
  rw [← List.takeWhile_append_dropWhile (p := Token.isWordChar) (l := line), List.getLast?_append,
    hlast]
  rfl

/-- The line begins with its first word, and whatever stands behind that is part of
the line. -/
theorem NamedLine.lineFront (h : line.NamedLine) :
    Token.LineFront line .identifier (line.takeWhile Token.isWordChar)
      (line.dropWhile Token.isWordChar) := by
  have hcut := List.takeWhile_append_dropWhile (p := Token.isWordChar) (l := line)
  have hne := ne_nil_of_head h.head_word
  refine ⟨hcut.symm ▸ List.suffix_refl line, ?_, fun rest => ?_⟩
  · refine ⟨_, _, (List.dropLast_concat_getLast hne).symm, ?_⟩
    have hlast := List.all_eq_true.mp (List.all_takeWhile (l := line)) _ (List.getLast_mem hne)
    exact ⟨Token.visible_of_wordChar hlast, Token.not_wordChar hlast rfl⟩
  · have hends : Token.EndsWord (line.dropWhile Token.isWordChar ++ '\n' :: rest) := by
      cases htail : line.dropWhile Token.isWordChar with
      | nil => exact Token.EndsWord.of_cons rfl rest
      | cons d tail =>
        exact Token.EndsWord.of_cons (Token.endsWord_dropWhile line d tail htail) _
    have hfront := Token.Front.of_word hne List.all_takeWhile hends
    rwa [Token.wordKind_of_head h.head_word, ← List.append_assoc, hcut] at hfront

end Text

namespace Cursor

theorem cutLine_line {line rest : Text} (hline : '\n' ∉ line)
    (hlast : line.getLast? ≠ some '\\') :
    cutLine false (line ++ '\n' :: rest) = (line, rest) := by
  rw [cutLine_eq, lineLength?_line hline (fun _ => rfl) hlast]
  show ((line ++ '\n' :: rest).take line.length, (line ++ '\n' :: rest).drop (line.length + 1)) = _
  rw [List.take_left, ← List.drop_drop, List.drop_left]
  rfl

end Cursor

namespace Document

open Text (NamedLine)
open Token (LineFront)

/-! ## The line of a field -/

/-- A line is read as its field or refused, if its first token stands at its front and
begins no definition. -/
theorem readItem_front {line word tail rest : Text} {kind : TokenKind} {cursor : Cursor}
    (hfront : LineFront line kind word tail) (hcut : word ++ tail = line)
    (hfield : word ∉ Field.directives) (hline : '\n' ∉ line) (hend : tail.getLast? ≠ some '\\')
    (h : cursor.Faces (line ++ '\n' :: rest)) :
    ∃ offset behind, cursor.next = (some ⟨kind, word, offset⟩, behind) ∧
      Gives rest (readItem ⟨kind, word, offset⟩ behind)
        ((Field.ofContent? line).map fieldItem) := by
  have htail : '\n' ∉ tail := fun hmem => hline (hcut ▸ List.mem_append_right word hmem)
  obtain ⟨offset, behind, hnext, hon, hslice⟩ := h.next_front hfront htail hend
  rw [hcut] at hslice
  refine ⟨offset, behind, hnext, ?_⟩
  rw [readItem_of_field hfield]
  exact gives_readField (Text.not_pair_of_oneLine hline) hslice hon.below

theorem readItem_named {line rest : Text} {cursor : Cursor} (hline : line.NamedLine)
    (h : cursor.Faces (line ++ '\n' :: rest)) :
    ∃ offset behind,
      cursor.next = (some ⟨.identifier, line.takeWhile Token.isWordChar, offset⟩, behind) ∧
      Gives rest (readItem ⟨.identifier, line.takeWhile Token.isWordChar, offset⟩ behind)
        ((Field.ofContent? line).map fieldItem) :=
  readItem_front hline.lineFront List.takeWhile_append_dropWhile hline.not_directive hline.oneLine
    hline.unescaped_tail h

/-- On its own a line with a number that is too long is not even refused. -/
theorem ofText_named_tooLong {line : Text} (hline : line.NamedLine)
    (hlong : Field.ofContent line = .error .tooLong) : Layout.ofText line = .error .tooLong := by
  have hcut := List.takeWhile_append_dropWhile (p := Token.isWordChar) (l := line)
  have htail : '\n' ∉ line.dropWhile Token.isWordChar := fun hmem =>
    hline.oneLine (hcut ▸ List.mem_append_right _ hmem)
  obtain ⟨offset, behind, hnext, -, hslice⟩ :=
    (Cursor.faces_line line).next_front hline.lineFront htail hline.unescaped_tail
  rw [hcut] at hslice
  have hcontent := ofContent_joined (Text.not_pair_of_oneLine hline.oneLine) hslice
  rw [hlong, Text.joined] at hcontent
  have hitem : readItem ⟨.identifier, line.takeWhile Token.isWordChar, offset⟩ behind =
      .error .tooLong := by
    rw [readItem_of_field hline.not_directive]
    simp only [readField, hcontent]
    rfl
  rw [Layout.ofText, read, readItems_of_some hnext, hitem]
  rfl

/-! ## What a text adds -/

/-- Where the text lies ahead, and another one behind it, its items come first, and
those of the other one are read next. -/
def Adds (text : Text) (items : List Item) (rest : Text) : Prop :=
  ∀ cursor : Cursor, cursor.Faces (text ++ rest) →
    ∃ later : Cursor, later.Faces rest ∧ readItems cursor = (readItems later).map (items ++ ·)

theorem adds_nil (rest : Text) : Adds [] [] rest := by
  intro cursor h
  refine ⟨cursor, h, ?_⟩
  cases readItems cursor with
  | error e => rfl
  | ok items => rfl

theorem Adds.append {text other rest : Text} {items others : List Item}
    (h : Adds text items (other ++ rest)) (hother : Adds other others rest) :
    Adds (text ++ other) (items ++ others) rest := by
  intro cursor hfaces
  rw [List.append_assoc] at hfaces
  obtain ⟨middle, hmiddle, hitems⟩ := h cursor hfaces
  obtain ⟨later, hlater, hothers⟩ := hother middle hmiddle
  refine ⟨later, hlater, ?_⟩
  rw [hitems, hothers]
  cases readItems later with
  | error e => rfl
  | ok below => exact congrArg Except.ok (List.append_assoc items others below).symm

theorem Adds.read {lines : List Text} {items : List Item}
    (h : Adds (lines.flatMap (· ++ ['\n'])) items []) :
    read (Text.joinWith ['\n'] lines) = .ok items := by
  have hcursor : Cursor.ofText (Text.joinWith ['\n'] lines) =
      Cursor.ofText (lines.flatMap (· ++ ['\n'])) := by
    rw [Cursor.ofText, Cursor.ofText, Text.trimRight_joinWith]
  have hfaces := Cursor.faces_ofText (lines.flatMap (· ++ ['\n']) ++ [])
  obtain ⟨later, hlater, hitems⟩ := h _ hfaces
  rw [List.append_nil] at hitems
  rw [Document.read, hcursor, hitems, readItems_absent hlater rfl]
  exact congrArg Except.ok (List.append_nil items)

/-- One item is read, and then the rest. -/
theorem Adds.of_gives {text rest : Text} {item : Item}
    (h : ∀ cursor : Cursor, cursor.Faces (text ++ rest) →
      ∃ token behind, cursor.next = (some token, behind) ∧
        Gives rest (readItem token behind) (some item)) :
    Adds text [item] rest := by
  intro cursor hfaces
  obtain ⟨token, behind, hnext, hgives⟩ := h cursor hfaces
  rw [readItems_of_some hnext]
  generalize readItem token behind = reading at hgives
  obtain ⟨hlater⟩ := hgives
  exact ⟨_, hlater, rfl⟩

theorem adds_named {line : Text} {field : Field} (hline : line.NamedLine)
    (hfield : Field.ofContent? line = some field) (rest : Text) :
    Adds (line ++ ['\n']) [fieldItem field] rest := by
  refine Adds.of_gives fun cursor h => ?_
  rw [List.append_assoc, List.singleton_append] at h
  obtain ⟨offset, behind, hnext, hgives⟩ := readItem_named hline h
  rw [hfield] at hgives
  exact ⟨_, behind, hnext, hgives⟩

/-- The items of lines that are fields. -/
def fieldItems (lines : List Text) : List Item :=
  (lines.filterMap Field.ofContent?).map fieldItem

theorem fieldItems_append (lines others : List Text) :
    fieldItems (lines ++ others) = fieldItems lines ++ fieldItems others := by
  rw [fieldItems, List.filterMap_append, List.map_append]
  rfl

/-- **Named lines add their fields**, by induction over the lines. -/
theorem adds_lines {lines : List Text}
    (h : ∀ line ∈ lines, line.NamedLine ∧ (Field.ofContent? line).isSome) (rest : Text) :
    Adds (lines.flatMap (· ++ ['\n'])) (fieldItems lines) rest := by
  induction lines with
  | nil => exact adds_nil rest
  | cons line lines ih =>
    obtain ⟨hline, hsome⟩ := h line List.mem_cons_self
    obtain ⟨field, hfield⟩ := Option.isSome_iff_exists.mp hsome
    have hitems : fieldItems (line :: lines) = [fieldItem field] ++ fieldItems lines := by
      rw [fieldItems, List.filterMap_cons_some hfield]
      rfl
    rw [List.flatMap_cons, hitems]
    exact (adds_named hline hfield _).append
      (ih fun other hother => h other (List.mem_cons_of_mem line hother))

/-- A colon alone is the line of a field without a name. -/
theorem adds_colon (rest : Text) :
    Adds ([':'] ++ ['\n']) [.field (Layout.padding 1)] rest := by
  have hfront : LineFront [':'] .operator [':'] [] :=
    ⟨List.suffix_refl _, ⟨[], ':', rfl, by decide, by decide⟩,
      fun rest => Token.Front.of_operator (by decide) (by decide)⟩
  refine Adds.of_gives fun cursor h => ?_
  obtain ⟨offset, behind, hnext, hgives⟩ :=
    readItem_front hfront rfl (by decide) (by decide) nofun h
  exact ⟨_, behind, hnext, hgives⟩

/-! ## Lines of white space -/

/-- White space that is no blank is a token of its own. -/
theorem lexeme_white {c : Char} {rest : Text} (hspace : Text.isSpace c = true)
    (hrest : Token.EndsWord rest) : Token.lexeme c rest = (Token.wordKind [c], [c]) := by
  have hstring : c ≠ '"' := Text.ne_of_space hspace (by decide)
  have hchar : c ≠ '\'' := Text.ne_of_space hspace (by decide)
  have hoperator : c ∉ Token.operators := by
    intro hmem
    have hvisible : Text.isSpace c = false :=
      Text.mem_cases (P := fun d => Text.isSpace d = false) (by decide) c hmem
    exact Text.ne_of_space hspace hvisible rfl
  have hword : ∀ d ∈ ([] : Text), Token.isWordChar d = true := nofun
  exact Token.lexeme_word hstring hchar hoperator hword hrest

/-- From its first character on that is no blank, a line of white space is ahead as it
stands, if there is something below. -/
theorem ahead_white {line rest : Text} {cursor : Cursor}
    (hspace : ∀ c ∈ line, Text.isSpace c = true) (hblank : ¬ ∀ c ∈ line, Token.isBlank c = true)
    (hrest : Text.trimRight rest ≠ []) (h : cursor.Faces (line ++ '\n' :: rest)) :
    ∃ c tail, c :: tail <:+ line ∧
      cursor.ahead = c :: (tail ++ '\n' :: Text.trimRight rest) := by
  have hne : line.dropWhile Token.isBlank ≠ [] :=
    fun hnil => hblank (List.dropWhile_eq_nil_iff.mp hnil)
  obtain ⟨c, tail, hdrop⟩ := List.exists_cons_of_ne_nil hne
  have hsuffix : c :: tail <:+ line := hdrop ▸ List.dropWhile_suffix Token.isBlank
  have hstop : ¬ Token.isBlank c = true := by
    have hnot := List.head?_dropWhile_not Token.isBlank line
    rw [hdrop] at hnot
    exact Bool.eq_false_iff.mp hnot
  have hc : Text.isSpace c = true := hspace c (hsuffix.subset List.mem_cons_self)
  have hslash : c ≠ '\\' := Text.ne_of_space hc (by decide)
  have hcomment : c ≠ '/' := Text.ne_of_space hc (by decide)
  have hgap : Token.dropGap .between (line ++ '\n' :: rest) = c :: (tail ++ '\n' :: rest) := by
    rw [← Token.dropGap_dropWhile, List.dropWhile_append, hdrop]
    exact Token.dropGap_of_stop hstop hslash fun heq => absurd heq hcomment
  have htrim : Text.trimRight (c :: (tail ++ '\n' :: rest)) =
      c :: (tail ++ '\n' :: Text.trimRight rest) := by
    have hkeep : Text.trimRight (c :: tail ++ ['\n'] ++ rest) =
        c :: tail ++ ['\n'] ++ Text.trimRight rest := Text.trimRight_append_of_ne hrest
    simpa only [List.append_assoc, List.cons_append, List.nil_append] using hkeep
  exact ⟨c, tail, hsuffix, (h.trans (congrArg Text.trimRight hgap)).trans htrim⟩

theorem adds_blank {line : Text} (h : ∀ c ∈ line, Token.isBlank c = true) (rest : Text) :
    Adds (line ++ ['\n']) [] rest := by
  intro cursor hfaces
  have hgap : Token.dropGap .between (line ++ ['\n'] ++ rest) = Token.dropGap .between rest := by
    have hblank : ∀ c ∈ line ++ ['\n'], Token.isBlank c = true := by
      intro c hc
      rcases List.mem_append.mp hc with hc | hc
      · exact h c hc
      · rw [List.mem_singleton.mp hc]
        rfl
    rw [← Token.dropGap_dropWhile, List.dropWhile_append_of_pos hblank, Token.dropGap_dropWhile]
  exact adds_nil rest cursor (hfaces.congr hgap.symm)

theorem ofContent?_white {line : Text} (h : ∀ c ∈ line, Text.isSpace c = true) :
    Field.ofContent? line = some (Layout.padding 1) := by
  rw [Field.ofContent?_eq_some_iff, ← Field.ofContent_trimRight, Text.trimRight_eq_nil_iff.mpr h]
  rfl

/-- No word goes on in white space. -/
theorem endsWord_white {tail : Text} (h : ∀ c ∈ tail, Text.isSpace c = true) (rest : Text) :
    Token.EndsWord (tail ++ '\n' :: rest) := by
  intro d others heq
  have hd : Text.isSpace d = true := by
    cases tail with
    | nil =>
      obtain ⟨rfl, -⟩ := List.cons.inj heq
      decide
    | cons e tail =>
      obtain ⟨rfl, -⟩ := List.cons.inj heq
      exact h _ List.mem_cons_self
  cases hword : Token.isWordChar d with
  | false => rfl
  | true => cases hd.symm.trans (Token.visible_of_wordChar hword)

/-- The first of such white space is read as a token, and behind it there is the rest
of the line. -/
theorem next_white {c : Char} {tail rest : Text} {cursor : Cursor}
    (hspace : ∀ d ∈ c :: tail, Text.isSpace d = true) (hline : '\n' ∉ tail)
    (h : cursor.ahead = c :: (tail ++ '\n' :: Text.trimRight rest)) :
    ∃ offset later, cursor.next = (some ⟨Token.wordKind [c], [c], offset⟩, later) ∧
      later.slice (some offset) (some (later.split ['\n']).1) = c :: tail ∧
      (later.split ['\n']).2.Faces rest := by
  have hends := endsWord_white (fun d hd => hspace d (List.mem_cons_of_mem c hd))
    (Text.trimRight rest)
  obtain ⟨offset, hnext, -⟩ := Cursor.next_of_ahead h
  rw [lexeme_white (hspace c List.mem_cons_self) hends] at hnext
  have hslash : ∀ d ∈ c :: tail, d ≠ '\\' := fun d hd =>
    Text.ne_of_space (hspace d hd) (by decide)
  have hlast : [c].getLast? ≠ some '\\' := fun heq =>
    hslash c List.mem_cons_self (Option.some.inj heq)
  have hend : tail.getLast? ≠ some '\\' := fun heq =>
    hslash _ (List.mem_cons_of_mem c (List.mem_of_getLast? heq)) rfl
  have hahead : cursor.ahead = [c] ++ (tail ++ '\n' :: Text.trimRight rest) := h
  obtain ⟨hslice, hbelow⟩ := Cursor.split_behind_token hnext hahead hlast
  rw [Cursor.cutLine_line hline hend] at hslice hbelow
  refine ⟨offset, _, hnext, hslice, ?_⟩
  rw [Cursor.Faces, hbelow, Token.dropGap_trimRight]

/-- **Other white space begins the line of a field without a name.** -/
theorem adds_white {line rest : Text} (hspace : ∀ c ∈ line, Text.isSpace c = true)
    (hline : '\n' ∉ line) (hblank : ¬ ∀ c ∈ line, Token.isBlank c = true)
    (hrest : Text.trimRight rest ≠ []) :
    Adds (line ++ ['\n']) [.field (Layout.padding 1)] rest := by
  refine Adds.of_gives fun cursor h => ?_
  rw [List.append_assoc, List.singleton_append] at h
  obtain ⟨c, tail, hsuffix, hahead⟩ := ahead_white hspace hblank hrest h
  have hwhite : ∀ d ∈ c :: tail, Text.isSpace d = true := fun d hd =>
    hspace d (hsuffix.subset hd)
  have honeLine : '\n' ∉ c :: tail := fun hmem => hline (hsuffix.subset hmem)
  obtain ⟨offset, later, hnext, hslice, hfaces⟩ :=
    next_white hwhite (List.not_mem_of_not_mem_cons honeLine) hahead
  have hgives := gives_readField (Text.not_pair_of_oneLine honeLine) (Or.inl hslice) hfaces
  rw [ofContent?_white hwhite] at hgives
  have hword : [c] ∉ Field.directives := by
    have hmark : c ≠ '#' := Text.ne_of_space (hwhite c List.mem_cons_self) (by decide)
    simpa [Field.directives] using hmark
  refine ⟨_, later, hnext, ?_⟩
  rw [readItem_of_field hword]
  exact hgives

/-- **A line in between** adds its items between those of the named lines around it. -/
theorem read_between {above below : List Text} {line : Text} {items : List Item}
    (habove : ∀ line ∈ above, line.NamedLine ∧ (Field.ofContent? line).isSome)
    (hbelow : ∀ line ∈ below, line.NamedLine ∧ (Field.ofContent? line).isSome)
    (hline : Adds (line ++ ['\n']) items (below.flatMap (· ++ ['\n']))) :
    read (Text.joinWith ['\n'] (above ++ line :: below)) =
      .ok (fieldItems above ++ (items ++ fieldItems below)) := by
  refine Adds.read ?_
  rw [List.flatMap_append, List.flatMap_cons]
  refine (adds_lines habove _).append (Adds.append ?_ (adds_lines hbelow []))
  rwa [List.append_nil]

theorem trimRight_named {line : Text} (h : line.NamedLine) (rest : Text) :
    Text.trimRight (line ++ rest) ≠ [] := by
  obtain ⟨c, tail, rfl, hc⟩ := h.exists_cons
  rw [List.cons_append, Text.trimRight_cons_of_not_space (Token.visible_of_wordChar hc)]
  exact nofun

end Document

namespace Layout

open Document (Adds fieldItems)

/-! ## White space between the lines of a description -/

/-- **A line of blanks says nothing.** A line of other white space says what a colon
does, as long as there are lines below. -/
theorem white_line_ofText {above below : List Text} {line : Text} (hne : below ≠ [])
    (habove : ∀ line ∈ above, line.NamedLine ∧ (Field.ofContent? line).isSome)
    (hbelow : ∀ line ∈ below, line.NamedLine ∧ (Field.ofContent? line).isSome)
    (hspace : Text.trim line = []) (hline : '\n' ∉ line) :
    ∃ layout, ofText (Text.joinWith ['\n'] (above ++ below)) = .ok layout ∧
      ofText (Text.joinWith ['\n'] (above ++ line :: below)) =
        if line.all Token.isBlank then .ok layout
        else ofText (Text.joinWith ['\n'] (above ++ [':'] :: below)) := by
  have hwhite := Text.trim_eq_nil_iff.mp hspace
  have hall : ∀ line ∈ above ++ below, line.NamedLine ∧ (Field.ofContent? line).isSome := by
    intro line hmem
    rcases List.mem_append.mp hmem with hmem | hmem
    · exact habove line hmem
    · exact hbelow line hmem
  have hread := Adds.read (Document.adds_lines hall [])
  have hvisible : Text.trimRight (below.flatMap (· ++ ['\n'])) ≠ [] := by
    obtain ⟨first, others, rfl⟩ := List.exists_cons_of_ne_nil hne
    rw [List.flatMap_cons, List.append_assoc]
    exact Document.trimRight_named (hbelow first List.mem_cons_self).1 _
  refine ⟨ofItems (fieldItems (above ++ below)), by rw [ofText, hread]; rfl, ?_⟩
  split
  · next hblank =>
    have hadds := Document.adds_blank (List.all_eq_true.mp hblank) (below.flatMap (· ++ ['\n']))
    rw [ofText, Document.read_between habove hbelow hadds, Document.fieldItems_append]
    rfl
  · next hblank =>
    have hsome : ¬ ∀ c ∈ line, Token.isBlank c = true := fun hall =>
      hblank (List.all_eq_true.mpr hall)
    have hother := Document.adds_white hwhite hline hsome hvisible
    rw [ofText, ofText, Document.read_between habove hbelow hother,
      Document.read_between habove hbelow (Document.adds_colon _)]

/-- A line of all three blanks, and one of two that are none. -/
theorem white_line_ofText_each :
    let above := ["a:1".toList]
    let below := ["b:~4".toList, "c \"d\"::red".toList]
    let Accepted := fun line : Text => line.NamedLine ∧ (Field.ofContent? line).isSome
    (∀ line ∈ above, Accepted line) ∧ (∀ line ∈ below, Accepted line) ∧
      (Text.trim " \t\r".toList = [] ∧ '\n' ∉ " \t\r".toList ∧
        ∃ layout, ofText (Text.joinWith ['\n'] (above ++ below)) = .ok layout ∧
          ofText (Text.joinWith ['\n'] (above ++ " \t\r".toList :: below)) = .ok layout) ∧
      (Text.trim " \x0b\u2003".toList = [] ∧ '\n' ∉ " \x0b\u2003".toList ∧
        ofText (Text.joinWith ['\n'] (above ++ " \x0b\u2003".toList :: below)) =
          ofText (Text.joinWith ['\n'] (above ++ [':'] :: below))) := by
  intro above below Accepted
  have habove : ∀ line ∈ above, Accepted line := by decide +kernel
  have hbelow : ∀ line ∈ below, Accepted line := by decide +kernel
  have hne : below ≠ [] := List.cons_ne_nil _ _
  have hblank : Text.trim " \t\r".toList = [] ∧ '\n' ∉ " \t\r".toList := by decide +kernel
  have hother : Text.trim " \x0b\u2003".toList = [] ∧ '\n' ∉ " \x0b\u2003".toList := by
    decide +kernel
  obtain ⟨layout, hlayout, hsame⟩ :=
    white_line_ofText hne habove hbelow hblank.1 hblank.2
  obtain ⟨_, -, hcolon⟩ := white_line_ofText hne habove hbelow hother.1 hother.2
  have hall : " \t\r".toList.all Token.isBlank = true := by decide
  have hnot : ¬ " \x0b\u2003".toList.all Token.isBlank = true := by decide
  rw [if_pos hall] at hsame
  rw [if_neg hnot] at hcolon
  exact ⟨habove, hbelow, ⟨hblank.1, hblank.2, layout, hlayout, hsame⟩,
    hother.1, hother.2, hcolon⟩

/-- A form feed between two fields is a third one, and moves the field above it. -/
theorem white_line_formFeed :
    let a : Field := ⟨['a'], 1, some 1, none, [], none, ∅⟩
    let b : Field := ⟨['b'], 1, some 0, none, [], none, ∅⟩
    let unnamed : Field := ⟨[], 1, some 1, none, [], none, ∅⟩
    (∀ line ∈ [['a'], ['b']], Text.NamedLine line ∧ (Field.ofContent? line).isSome) ∧
      Text.trim ['\x0c'] = [] ∧
      ofText (Text.joinWith ['\n'] [['a'], ['b']]) =
        .ok { fields := [a, b], bits := ∅, enumTypes := ∅, width := 2 } ∧
      ofText (Text.joinWith ['\n'] [['a'], ['\x0c'], ['b']]) =
        .ok { fields := [a.placeAt 2, unnamed, b], bits := ∅, enumTypes := ∅, width := 3 } := by
  refine ⟨by decide +kernel, by decide +kernel, ?_, ?_⟩
  · decide +kernel
  · decide +kernel

end Layout

end BitLayout
