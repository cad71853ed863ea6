import BitLayout.Proofs.Document.NamedLine
import BitLayout.Proofs.Enumeration.Grammar
import BitLayout.Proofs.Field.RoundTrip
import BitLayout.Proofs.Numeral.Grammar

/-!
# Texts without long numbers

Compiling a text stops without an answer at a number that has too many
decimal digits (`Failure.tooLong`), and nowhere else. Every text that is
converted is a piece of the description: a token, or what is cut from the
line of a field, where joined lines meet at a blank. So a description that
has no long run of decimal digits is compiled or refused
(`Layout.ofText_ne_tooLong`).
-/

namespace BitLayout

namespace Text

/-- No run of decimal digits is longer than this. -/
def DigitsWithin (limit : Nat) (text : Text) : Prop :=
  ∀ digits, digits <:+: text → digits.all isAsciiDigit → digits.length ≤ limit

theorem DigitsWithin.of_infix {limit : Nat} {text piece : Text} (h : DigitsWithin limit text)
    (hpiece : piece <:+: text) : DigitsWithin limit piece :=
  fun digits hdigits => h digits (hdigits.trans hpiece)

theorem DigitsWithin.of_length_le {limit : Nat} {text : Text} (h : text.length ≤ limit) :
    DigitsWithin limit text :=
  fun _ hdigits _ => Nat.le_trans hdigits.length_le h

/-- Joining the lines of a field makes no longer numbers, since it leaves a
blank where they meet. -/
theorem DigitsWithin.replacePair {limit : Nat} {text : Text} (h : DigitsWithin limit text)
    (old new : Char) : DigitsWithin limit (Text.replacePair old new [' '] text) := by
  intro digits hdigits hall
  refine h digits (infix_of_replacePair hdigits fun hblank => ?_) hall
  have := List.all_eq_true.mp hall ' ' hblank
  cases this

end Text

open Text (DigitsWithin)

namespace Numeral

theorem isSuffix_behindSign (text : Text) : behindSign text <:+ text := by
  unfold behindSign
  split
  · exact List.suffix_cons _ _
  · exact List.suffix_refl _

theorem read_ne_tooLong {radix : Radix} {text : Text} (h : DigitsWithin mostDecimals text) :
    read radix text ≠ .error .tooLong := by
  intro hread
  obtain ⟨-, hlong⟩ := read_tooLong_iff.mp hread
  have hpiece : behindSign (Text.trim text) <:+: text :=
    (isSuffix_behindSign _).isInfix.trans (Text.isInfix_trim text)
  exact absurd (h _ hpiece hlong.decimal) (Nat.not_le.mpr hlong.many)

end Numeral

namespace Field

theorem readCount_ne_tooLong {text : Text} (h : DigitsWithin Numeral.mostDecimals text) :
    readCount text ≠ .error .tooLong := by
  unfold readCount
  split
  · next hdigits =>
    rw [if_neg]
    · exact nofun
    · exact fun hmany => absurd (h text List.infix_rfl hdigits.2) (Nat.not_le.mpr hmany.2)
  · exact nofun

theorem readCount_tooLong {text : Text} (hdigits : text.all Text.isAsciiDigit = true)
    (hlong : Numeral.mostDecimals < text.length) : readCount text = .error .tooLong := by
  have hne : text ≠ [] := List.ne_nil_of_length_pos (Nat.zero_lt_of_lt hlong)
  rw [readCount, if_pos ⟨hne, hdigits⟩, if_pos ⟨rfl, hlong⟩]

theorem readExtent_ne_tooLong {segment : Text} (h : DigitsWithin Numeral.mostDecimals segment) :
    readExtent segment ≠ .error .tooLong := by
  unfold readExtent
  split
  · exact nofun
  · next c rest =>
    split
    · have hcount := readCount_ne_tooLong h
      split <;> simp_all
    · have hrest : Text.trim rest <:+: c :: rest :=
        (Text.isInfix_trim rest).trans (List.suffix_cons c rest).isInfix
      rw [ne_eq, map_eq_error_iff]
      exact readCount_ne_tooLong (h.of_infix hrest)

/-- The width segment is a piece of the line. -/
theorem isInfix_width (line : Text) : (Segments.ofLine line).width <:+: line := by
  have hname : (Text.cutAt ':' (Text.trim line)).2 <:+: line :=
    (Text.cutAt_isSuffix ':' _).isInfix.trans (Text.isInfix_trim line)
  exact (Text.isInfix_trim _).trans ((Text.cutAt_isPrefix ':' _).isInfix.trans hname)

theorem ofContent_ne_tooLong {line : Text} (h : DigitsWithin Numeral.mostDecimals line) :
    ofContent line ≠ .error .tooLong := by
  rw [ofContent, ne_eq, map_eq_error_iff]
  exact readExtent_ne_tooLong (h.of_infix (isInfix_width line))

/-- A width of too many digits. -/
theorem ofContent_tooLong {name digits : Text} (hname : name.Trimmed ∧ ':' ∉ name)
    (hdigits : digits.all Text.isAsciiDigit = true)
    (hlong : Numeral.mostDecimals < digits.length) :
    ofContent (name ++ ':' :: digits) = .error .tooLong := by
  have hne : digits ≠ [] := List.ne_nil_of_length_pos (Nat.zero_lt_of_lt hlong)
  have hclean : (Segments.mk name digits [] [] []).Clean :=
    ⟨hname, trimmed_of_digits hdigits, ⟨Text.trimmed_nil, List.not_mem_nil⟩,
      ⟨Text.trimmed_nil, List.not_mem_nil⟩, Text.trimmed_nil⟩
  have htext : (Segments.mk name digits [] [] []).text = name ++ ':' :: digits := by
    simp [Segments.text, dropEmptyEnd, Text.joinWith, hne]
  have hextent : readExtent digits = .error .tooLong := by
    have hcount := readCount_tooLong hdigits hlong
    obtain ⟨c, rest, rfl⟩ := List.exists_cons_of_ne_nil hne
    rw [readExtent, if_pos (List.all_eq_true.mp hdigits c List.mem_cons_self), hcount]
  rw [← htext, ofContent, map_eq_error_iff, Segments.ofLine_text hclean]
  exact hextent

end Field

/-! ## Tokens -/

namespace Cursor

theorem isInfix_of_mem_row {cursor : Cursor} {token : Token} (h : token ∈ cursor.row) :
    token.text <:+: cursor.buffer := by
  unfold row at h
  fun_induction tokens cursor with
  | case1 cursor later hnext => cases h
  | case2 cursor first later hnext hlt others ih =>
    rcases List.mem_cons.mp h with rfl | h
    · exact isInfix_text hnext
    · have hbuffer := next_buffer cursor
      rw [hnext] at hbuffer
      exact hbuffer ▸ ih h

theorem isInfix_of_mem_matchAll {wants : List Want} {cursor : Cursor} {text : Text}
    (h : text ∈ (cursor.matchAll wants).1) : text <:+: cursor.buffer := by
  have hmem : text ∈ (matchedTexts wants cursor).1 := h
  clear h
  induction wants generalizing cursor with
  | nil => cases hmem
  | cons want wants ih =>
    simp only [matchedTexts] at hmem
    split at hmem
    · rcases List.mem_cons.mp hmem with rfl | hmem
      · rcases hnext : cursor.next with ⟨_ | token, later⟩
        · exact List.nil_infix
        · exact isInfix_text hnext
      · exact next_buffer cursor ▸ ih hmem
    · cases hmem

end Cursor

namespace Enumeration

theorem LongNumberTokens.exists_tooLong {number : List Token} (h : LongNumberTokens number) :
    ∃ token ∈ number, Numeral.read .dec token.text = .error .tooLong := by
  cases h with
  | plain kind long => exact ⟨_, List.mem_singleton_self _, long⟩
  | negative sign kind long => exact ⟨_, List.mem_cons_of_mem _ (List.mem_singleton_self _), long⟩

theorem read_ne_tooLong {cursor later : Cursor}
    (h : DigitsWithin Numeral.mostDecimals cursor.buffer) :
    read cursor ≠ (.error .tooLong, later) := by
  intro hread
  obtain ⟨opening, inner, members, tag, word, equals, number, rest, hrow, -, -, -, -, hlong⟩ :=
    stopsLong_of_read hread
  obtain ⟨token, htoken, htooLong⟩ := hlong.exists_tooLong
  have hmem : token ∈ cursor.row := by
    rw [hrow]
    simp [htoken]
  exact Numeral.read_ne_tooLong (h.of_infix (Cursor.isInfix_of_mem_row hmem)) htooLong

end Enumeration

/-! ## Descriptions -/

namespace Document

theorem readDefine_ne_tooLong {cursor : Cursor}
    (h : DigitsWithin Numeral.mostDecimals cursor.buffer) :
    readDefine cursor ≠ .error .tooLong := by
  simp only [readDefine]
  split
  · next keyword name value hmatched =>
    have hinfix : value <:+: cursor.buffer :=
      Cursor.isInfix_of_mem_matchAll (by rw [hmatched]; simp)
    have hvalue : Numeral.read .dec value ≠ .error .tooLong :=
      Numeral.read_ne_tooLong (h.of_infix hinfix)
    split
    · rintro ⟨⟩
    · next failure hread =>
      cases failure with
      | refused e => rintro ⟨⟩
      | tooLong => exact absurd hread hvalue
  · rintro ⟨⟩

theorem readTypedef_ne_tooLong {cursor : Cursor}
    (h : DigitsWithin Numeral.mostDecimals cursor.buffer) :
    readTypedef cursor ≠ .error .tooLong := by
  unfold readTypedef
  split
  · rintro ⟨⟩
  · next failure later hread =>
    cases failure with
    | refused e => rintro ⟨⟩
    | tooLong => exact absurd hread (Enumeration.read_ne_tooLong h)

theorem readEnumeration_ne_tooLong {cursor later : Cursor} {token : Token}
    (hnext : cursor.next = (some token, later)) (hkeyword : token.text = Enumeration.keyword)
    (h : DigitsWithin Numeral.mostDecimals later.buffer) :
    readEnumeration token.offset later ≠ .error .tooLong := by
  unfold readEnumeration
  rw [← read_seek_keyword hnext hkeyword]
  split
  · rintro ⟨⟩
  · next failure last hread =>
    cases failure with
    | refused e => rintro ⟨⟩
    | tooLong =>
      refine absurd hread (Enumeration.read_ne_tooLong ?_)
      rwa [Cursor.seek_buffer]

theorem readField_ne_tooLong {start : Nat} {cursor : Cursor}
    (h : DigitsWithin Numeral.mostDecimals cursor.buffer) :
    readField start cursor ≠ .error .tooLong := by
  have hslice : cursor.slice (some start) (some (cursor.split ['\n']).1) <:+: cursor.buffer := by
    rw [Cursor.slice_natCast]
    exact (List.drop_suffix _ _).isInfix.trans (List.take_prefix _ _).isInfix
  have hline := Field.ofContent_ne_tooLong ((h.of_infix hslice).replacePair '\\' '\n')
  simp only [readField]
  split
  · next failure hread =>
    cases failure with
    | refused e => rintro ⟨⟩
    | tooLong => exact absurd hread hline
  · split <;> rintro ⟨⟩

/-- One step: no item of a text without long numbers ends the reading in silence. -/
theorem readItem_ne_tooLong {cursor later : Cursor} {token : Token}
    (hnext : cursor.next = (some token, later))
    (h : DigitsWithin Numeral.mostDecimals later.buffer) :
    readItem token later ≠ .error .tooLong := by
  unfold readItem
  split
  · exact readDefine_ne_tooLong h
  · split
    · exact readTypedef_ne_tooLong h
    · split
      · next hkeyword => exact readEnumeration_ne_tooLong hnext hkeyword h
      · exact readField_ne_tooLong h

theorem readItems_ne_tooLong {cursor : Cursor}
    (h : DigitsWithin Numeral.mostDecimals cursor.buffer) :
    readItems cursor ≠ .error .tooLong := by
  fun_induction readItems cursor with
  | case1 => rintro ⟨⟩
  | case2 cursor token behind hnext failure hitem =>
    have hbuffer := Cursor.next_buffer cursor
    rw [hnext] at hbuffer
    rintro ⟨⟩
    exact readItem_ne_tooLong hnext (hbuffer ▸ h) hitem
  | case3 cursor token behind hnext item later hitem hlt ih =>
    have hbuffer := Cursor.next_buffer cursor
    rw [hnext] at hbuffer
    rw [ne_eq, map_eq_error_iff]
    exact ih ((readItem_buffer hitem).trans hbuffer ▸ h)

end Document

/-- **A text without long numbers is compiled or refused.** -/
theorem Layout.ofText_ne_tooLong {text : Text} (h : DigitsWithin Numeral.mostDecimals text) :
    ofText text ≠ .error .tooLong := by
  rw [ofText, ne_eq, map_eq_error_iff]
  exact Document.readItems_ne_tooLong (h.of_infix (Text.trimRight_isPrefix text).isInfix)

/-- With one digit too many it is neither. -/
theorem Layout.ofText_tooLong {digits : Text} (hdigits : digits.all Text.isAsciiDigit = true)
    (hlong : Numeral.mostDecimals < digits.length) :
    ofText ('a' :: ':' :: digits) = .error .tooLong := by
  have hne : digits ≠ [] := List.ne_nil_of_length_pos (Nat.zero_lt_of_lt hlong)
  have hother : ∀ c, Text.isAsciiDigit c = false → c ∉ digits := fun c hc hmem =>
    Bool.false_ne_true (hc.symm.trans (List.all_eq_true.mp hdigits c hmem))
  have hvisible : ∀ c ∈ ['a'], Text.isSpace c = false := by
    intro c hc
    rw [List.mem_singleton.mp hc]
    decide
  have hword : (['a'] ++ ':' :: digits).takeWhile Token.isWordChar = ['a'] := by
    rw [List.singleton_append, List.takeWhile_cons_of_pos (by decide),
      List.takeWhile_cons_of_neg (by decide)]
  have hnamed : Text.NamedLine (['a'] ++ ':' :: digits) := by
    refine ⟨?_, by rw [hword]; decide, ?_, fun hlast => ?_⟩
    · rw [List.singleton_append, List.head?_cons]
      decide
    · simpa using hother '\n' rfl
    · rw [List.singleton_append, List.getLast?_cons_cons, List.getLast?_cons_of_ne_nil hne] at hlast
      exact hother '\\' rfl (List.mem_of_getLast? hlast)
  have hname : Text.Trimmed ['a'] ∧ ':' ∉ ['a'] :=
    ⟨Text.trimmed_of_visible hvisible, by simp⟩
  have hcontent := Field.ofContent_tooLong hname hdigits hlong
  exact Document.ofText_named_tooLong hnamed hcontent

end BitLayout
