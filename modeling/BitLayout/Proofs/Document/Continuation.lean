import BitLayout.Proofs.Document.Digits
import BitLayout.Proofs.Document.Unnoticed

/-!
# Continued lines

A backslash at the end of a line is only a blank: a description without
literals and comments means the same with its lines joined
(`joined_ofText`).

Three places know of such a backslash, each in its own way. A gap takes any
character behind a backslash along with it, the end of a line is looked for
with the one character before it in view, and in the line of a field the
pair is replaced. So of several backslashes in a row a gap pairs them from
the left, and the line of a field the last one with the line feed. It makes
no difference: what is left over is part of the gap (`dropGap_joined`) or of
the line (`cutLine_joined`).

A backslash that only trailing white space separates from the end of the
text is left out. Trimming takes the line feed away from it.
-/

namespace BitLayout

namespace Token

/-- What a backslash takes along may be the first character of a pair. -/
theorem dropGap_drop_joined (c : Char) (text : Text) :
    dropGap .between ((Text.joined (c :: text)).drop 1) =
      dropGap .between (Text.joined text) := by
  by_cases hpair : c = '\\' ∧ text.head? = some '\n'
  · obtain ⟨rfl, hhead⟩ := hpair
    obtain ⟨rest, rfl⟩ := List.head?_eq_some_iff.mp hhead
    rw [Text.joined_pair, Text.joined_cons_of_ne (by decide), dropGap_blank rfl]
    rfl
  · rw [Text.joined_cons fun hc hhead => hpair ⟨hc, hhead⟩]
    rfl

theorem dropGap_joined {text : Text} (h : text.Plain) :
    dropGap .between text.joined = Text.joined (dropGap .between text) := by
  generalize hpart : GapPart.between = part
  fun_induction dropGap part text with
  | case1 => rfl
  | case2 => rfl
  | case3 c text ih =>
    have hplain : Text.Plain text :=
      h.of_infix ((List.suffix_cons c text).trans (List.suffix_cons _ _)).isInfix
    by_cases hc : c = '\n'
    · subst hc
      rw [Text.joined_pair, dropGap_blank rfl, ih hplain rfl]
    · have hhead : (c :: text).head? ≠ some '\n' := fun heq => hc (Option.some.inj heq)
      rw [Text.joined_cons fun _ => hhead, dropGap_backslash,
        dropGap_drop_joined, ih hplain rfl]
  | case4 text => exact absurd rfl h.head?_ne.1
  | case5 text => exact absurd rfl h.head?_ne.2
  | case6 c text _ hslash _ _ hblank ih =>
    have hplain : Text.Plain text := h.of_infix (List.suffix_cons c text).isInfix
    have hc : c ≠ '\\' := by
      rintro rfl
      cases hblank
    rw [Text.joined_cons_of_ne hc, dropGap_blank hblank, ih hplain rfl]
  | case7 c text h1 h2 h3 h4 h5 =>
    have hstop : dropGap .between (c :: text) = c :: text := by
      rw [dropGap, if_neg h5] <;> assumption
    rw [Text.joined_cons_of_ne (stop_of_dropGap hstop).2.1]
    refine dropGap_of_same_stop hstop fun d hd => ?_
    have hne : d ≠ ' ' := by
      rcases hd with rfl | rfl
      · decide
      · decide
    exact not_imp_not.mp (Text.head?_joined_ne hne)
  | case8 => cases hpart
  | case9 => cases hpart
  | case10 => cases hpart

theorem EndsWord.joined {text : Text} (h : EndsWord text) : EndsWord text.joined := by
  intro c rest heq
  have hhead : (Text.joined text).head? = some c := congrArg List.head? heq
  rcases Text.head?_joined text with hsame | hblank
  · obtain ⟨tail, rfl⟩ := List.head?_eq_some_iff.mp (hsame.symm.trans hhead)
    exact h c tail rfl
  · obtain rfl := Option.some.inj (hblank.symm.trans hhead)
    rfl

end Token

namespace Cursor

/-- A line with its continuations is cut out, and joined afterwards or before. -/
theorem cutLine_joined (text : Text) :
    cutLine false text.joined =
      (Text.joined (cutLine false text).1, Text.joined (cutLine false text).2) := by
  induction text using Text.joined_induction with
  | nil => rfl
  | pair text ih =>
    show (' ' :: (cutLine false text.joined).1, (cutLine false text.joined).2) = _
    rw [ih]
    rfl
  | cons c text h ih =>
    rw [Text.joined_cons h, cutLine, cutLine]
    split
    · rfl
    · next hline =>
      by_cases hc : c = '\\'
      · have hhead : (cutLine false text).1.head? ≠ some '\n' := by
          have hnot := h hc
          cases text with
          | nil => decide
          | cons d text =>
            rw [cutLine, if_neg fun hd => hnot (congrArg some hd.1)]
            exact hnot
        rw [cutLine_of_head (Text.head?_joined_ne (by decide) (h hc)) _ false,
          cutLine_of_head (h hc) _ false, ih, Text.joined_cons fun _ => hhead]
      · rw [beq_eq_false_iff_ne.mpr hc, ih, Text.joined_cons_of_ne hc]

end Cursor

namespace Document

theorem harmless_joined : Harmless Text.Plain Text.joined where
  piece := Text.Plain.of_infix
  unquoted := Text.Plain.toUnquoted
  nil := rfl
  word rest hword := Text.joined_append hword.no_backslash rest
  endsWord := Token.EndsWord.joined
  gap := Token.dropGap_joined
  field rest hword := by
    rw [Cursor.cutLine_joined, fieldOf, fieldOf, Text.joined_append hword.no_backslash,
      Text.joined_append hword.no_backslash, Text.joined_joined]
  below rest := by rw [Cursor.cutLine_joined]

end Document

namespace Layout

/-- **A continued line is one line.** Joining the lines of a description that a
backslash continues does not change what it means, or in which way it fails. -/
theorem joined_ofText {text : Text} (h : text.Plain)
    (hlast : (Text.trimRight text).getLast? ≠ some '\\') :
    outcome (ofText text.joined) = outcome (ofText text) :=
  Document.harmless_joined.ofText h (Text.trimRight_joined hlast)

/-- A macro that goes on behind a backslash, and a field behind two of them, of
which one stays. -/
theorem joined_ofText_continued :
    let text := "#define RED \\\n 1\nkind:3:blue\\\\\n:red".toList
    let layout : Layout :=
      { fields :=
          [⟨"kind".toList, 3, some 0, some "blue\\".toList, ["red".toList], none,
            Table.ofList [("RED".toList, 1)]⟩]
        bits := ∅
        enumTypes := ⟨Table.ofList [("RED".toList, 1)], ∅⟩
        width := 3 }
    Text.joined text = "#define RED   1\nkind:3:blue\\ :red".toList ∧ Text.Plain text ∧
      (Text.trimRight text).getLast? ≠ some '\\' ∧ ofText text = .ok layout ∧
      ofText (Text.joined text) = .ok layout := by
  intro text layout
  have hplain : Text.Plain text := by decide
  have hlast : (Text.trimRight text).getLast? ≠ some '\\' := by decide
  have hok : ofText text = .ok layout := by decide +kernel
  have hsame := joined_ofText hplain hlast
  rw [hok] at hsame
  exact ⟨rfl, hplain, hlast, hok, outcome_eq_ok_iff.mp hsame⟩

/-- A number with one digit too many: the description is neither refused nor compiled. -/
theorem joined_ofText_tooLong :
    let text : Text := 'a' :: ':' :: List.replicate 4301 '1'
    Text.Plain text ∧ (Text.trimRight text).getLast? ≠ some '\\' ∧
      ofText (Text.joined text) = .error .tooLong ∧ ofText text = .error .tooLong := by
  intro text
  have hother : ∀ c : Char, c ≠ 'a' → c ≠ ':' → c ≠ '1' → c ∉ text := by
    intro c ha hcolon hone hmem
    rcases List.mem_cons.mp hmem with hc | hmem
    · exact ha hc
    · rcases List.mem_cons.mp hmem with hc | hmem
      · exact hcolon hc
      · exact hone (List.eq_of_mem_replicate hmem)
  have hslash : '/' ∉ text := hother '/' (by decide) (by decide) (by decide)
  have hescape : '\\' ∉ text := hother '\\' (by decide) (by decide) (by decide)
  have hplain : Text.Plain text :=
    { string := hother '"' (by decide) (by decide) (by decide)
      char := hother '\'' (by decide) (by decide) (by decide)
      line := fun hline => hslash (hline.subset List.mem_cons_self)
      block := fun hblock => hslash (hblock.subset List.mem_cons_self) }
  have hlast : (Text.trimRight text).getLast? ≠ some '\\' := fun hlast =>
    hescape ((Text.trimRight_isPrefix text).subset (List.mem_of_getLast? hlast))
  have hjoined : Text.joined text = text :=
    Text.joined_of_no_pair fun hpair => hescape (hpair.subset List.mem_cons_self)
  have hlong : ofText text = .error .tooLong :=
    ofText_tooLong Numeral.overlong_ones.decimal Numeral.overlong_ones.many
  exact ⟨hplain, hlast, by rw [hjoined, hlong], hlong⟩

end Layout

end BitLayout
