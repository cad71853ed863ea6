import BitLayout.Proofs.Document.Unnoticed
import BitLayout.Proofs.Layout.Declared

/-!
# Carriage returns at the ends of lines

A carriage return before the end of a line is a blank like any other, so a
description without literals means the same with one there
(`returns_ofText`): in a gap it is passed over, in a comment it is part of
the comment, and in the line of a field it is trimmed off.

That holds of line feeds that end a line. Where a backslash continues the
line, the line feed has to stand right behind it, and a carriage return in
between ends the line after all (`returns_ofText_continued`).
-/

namespace BitLayout

namespace Text

/-- The text, from behind a backslash or not, with a carriage return before each
line feed that does not stand behind a backslash. -/
def withReturns (escaped : Bool) : Text → Text
  | [] => []
  | c :: text =>
    if c = '\n' ∧ !escaped then '\r' :: '\n' :: withReturns false text
    else c :: withReturns (c == '\\') text

theorem withReturns_cons (escaped : Bool) (c : Char) (text : Text) :
    (c = '\n' ∧ withReturns escaped (c :: text) = '\r' :: '\n' :: withReturns false text) ∨
      withReturns escaped (c :: text) = c :: withReturns (c == '\\') text := by
  rw [withReturns]
  split
  · next hline => exact Or.inl ⟨hline.1, rfl⟩
  · exact Or.inr rfl

theorem withReturns_of_ne {c : Char} (h : c ≠ '\n') (escaped : Bool) (text : Text) :
    withReturns escaped (c :: text) = c :: withReturns (c == '\\') text := by
  rw [withReturns, if_neg fun hline => h hline.1]

theorem withReturns_backslash (escaped : Bool) (c : Char) (text : Text) :
    withReturns escaped ('\\' :: c :: text) = '\\' :: c :: withReturns (c == '\\') text := by
  rw [withReturns_of_ne (by decide), withReturns, if_neg fun hline => nomatch hline.2]

theorem withReturns_eq_nil_iff {escaped : Bool} {text : Text} :
    withReturns escaped text = [] ↔ text = [] := by
  cases text with
  | nil => exact Iff.rfl
  | cons c text =>
    rcases withReturns_cons escaped c text with ⟨-, heq⟩ | heq
    · rw [heq]
      exact iff_of_false nofun nofun
    · rw [heq]
      exact iff_of_false nofun nofun

/-- The text begins as it did, or with a carriage return. -/
theorem head?_withReturns (escaped : Bool) (text : Text) :
    (withReturns escaped text).head? = text.head? ∨
      (withReturns escaped text).head? = some '\r' := by
  cases text with
  | nil => exact Or.inl rfl
  | cons c text =>
    rcases withReturns_cons escaped c text with ⟨-, heq⟩ | heq
    · rw [heq]
      exact Or.inr rfl
    · rw [heq]
      exact Or.inl rfl

theorem head?_withReturns_ne {text : Text} {c : Char} (hc : c ≠ '\r') (h : text.head? ≠ some c)
    (escaped : Bool) : (withReturns escaped text).head? ≠ some c := by
  rcases head?_withReturns escaped text with heq | heq
  · rw [heq]
    exact h
  · rw [heq]
    exact fun hreturn => hc (Option.some.inj hreturn).symm

theorem withReturns_append {word : Text} (hline : '\n' ∉ word) (hslash : '\\' ∉ word)
    (rest : Text) : withReturns false (word ++ rest) = word ++ withReturns false rest := by
  induction word with
  | nil => rfl
  | cons c word ih =>
    have hflag : (c == '\\') = false :=
      beq_eq_false_iff_ne.mpr (List.ne_of_not_mem_cons hslash).symm
    rw [List.cons_append, withReturns_of_ne (List.ne_of_not_mem_cons hline).symm, hflag,
      ih (List.not_mem_of_not_mem_cons hline) (List.not_mem_of_not_mem_cons hslash),
      List.cons_append]

/-- A backslash before anything but a line feed makes no difference. -/
theorem withReturns_of_head {text : Text} (h : text.head? ≠ some '\n') (escaped other : Bool) :
    withReturns escaped text = withReturns other text := by
  cases text with
  | nil => rfl
  | cons c text =>
    have hc : c ≠ '\n' := fun heq => h (congrArg some heq)
    rw [withReturns_of_ne hc, withReturns_of_ne hc]

theorem trimRight_withReturns (escaped : Bool) (text : Text) :
    trimRight (withReturns escaped text) = withReturns escaped (trimRight text) := by
  induction text generalizing escaped with
  | nil => rfl
  | cons c text ih =>
    by_cases hnil : trimRight text = []
    · have hempty : ∀ flag, trimRight (withReturns flag text) = [] := by
        intro flag
        rw [ih, hnil]
        rfl
      rcases withReturns_cons escaped c text with ⟨rfl, heq⟩ | heq
      · have hleft : trimRight (['\r', '\n'] ++ withReturns false text) = [] :=
          trimRight_append_of_nil (hempty false)
        have hright : trimRight (['\n'] ++ text) = [] := trimRight_append_of_nil hnil
        rw [heq]
        exact hleft.trans (congrArg (withReturns escaped) hright).symm
      · rw [heq, trimRight_cons, trimRight_cons, hempty, hnil]
        split
        · rfl
        · next hspace =>
          have hc : c ≠ '\n' := by
            rintro rfl
            exact hspace ⟨rfl, by decide⟩
          exact (withReturns_of_ne hc escaped []).symm
    · have hvisible : ∀ flag, trimRight (withReturns flag text) ≠ [] := by
        intro flag hempty
        rw [ih] at hempty
        exact hnil (withReturns_eq_nil_iff.mp hempty)
      rw [trimRight_cons, if_neg (fun hspace => hnil hspace.1), withReturns, withReturns]
      split
      · have hleft : trimRight (['\r', '\n'] ++ withReturns false text) =
            ['\r', '\n'] ++ trimRight (withReturns false text) :=
          trimRight_append_of_ne (hvisible false)
        rw [ih] at hleft
        exact hleft
      · rw [trimRight_cons, if_neg (fun hspace => hvisible _ hspace.1), ih]

/-- In a text without continued lines, each line feed gets its carriage return. -/
theorem replaceChar_eq_withReturns {text : Text} (h : ¬ ['\\', '\n'] <:+: text) :
    replaceChar '\n' ['\r', '\n'] text = withReturns false text := by
  induction text with
  | nil => rfl
  | cons c text ih =>
    have hrest : replaceChar '\n' ['\r', '\n'] text = withReturns false text :=
      ih fun hpair => h (hpair.trans (List.suffix_cons c text).isInfix)
    have hflag : withReturns false text = withReturns (c == '\\') text := by
      by_cases hc : c = '\\'
      · subst hc
        refine withReturns_of_head ?_ _ _
        intro hhead
        obtain ⟨rest, rfl⟩ := List.head?_eq_some_iff.mp hhead
        exact h (List.prefix_append ['\\', '\n'] rest).isInfix
      · rw [beq_eq_false_iff_ne.mpr hc]
    rw [replaceChar] at hrest
    rw [replaceChar, List.flatMap_cons, hrest]
    rcases withReturns_cons false c text with ⟨rfl, heq⟩ | heq
    · rw [heq]
      rfl
    · rw [heq, ← hflag]
      by_cases hline : c = '\n'
      · subst hline
        cases heq
      · rw [if_neg hline]
        rfl

end Text

namespace Token

open Text (withReturns)

theorem dropGap_withReturns (part : GapPart) (escaped : Bool) (text : Text) :
    dropGap part (withReturns escaped text) = withReturns false (dropGap part text) := by
  fun_induction dropGap part text generalizing escaped with
  | case1 => rfl
  | case2 => rw [Text.withReturns_of_ne (by decide)]; rfl
  | case3 c text ih => rw [Text.withReturns_backslash, dropGap_backslash, ← ih]; rfl
  | case4 text ih =>
    rw [Text.withReturns_of_ne (by decide), Text.withReturns_of_ne (by decide), ← ih]
    rfl
  | case5 text ih =>
    rw [Text.withReturns_of_ne (by decide), Text.withReturns_of_ne (by decide), ← ih]
    rfl
  | case6 c text _ _ _ _ hblank ih =>
    rcases Text.withReturns_cons escaped c text with ⟨-, heq⟩ | heq
    · rw [heq, dropGap_blank rfl, dropGap_blank rfl, ih]
    · rw [heq, dropGap_blank hblank, ih]
  | case7 c text h1 h2 h3 h4 h5 =>
    have hstop : dropGap .between (c :: text) = c :: text := by
      rw [dropGap, if_neg h5] <;> assumption
    have hc : c ≠ '\n' := by
      rintro rfl
      exact h5 rfl
    rw [Text.withReturns_of_ne hc, Text.withReturns_of_ne hc]
    refine dropGap_of_same_stop hstop fun d hd => ?_
    have hne : d ≠ '\r' := by
      rcases hd with rfl | rfl
      · decide
      · decide
    exact not_imp_not.mp fun hhead => Text.head?_withReturns_ne hne hhead _
  | case8 c text ih =>
    rcases Text.withReturns_cons escaped c text with ⟨rfl, heq⟩ | heq
    · rw [heq, ← ih false]
      rfl
    · rw [heq, dropGap, ih]
  | case9 text ih =>
    rw [Text.withReturns_of_ne (by decide), Text.withReturns_of_ne (by decide), ← ih]
    rfl
  | case10 c text hclose ih =>
    rcases Text.withReturns_cons escaped c text with ⟨rfl, heq⟩ | heq
    · rw [heq, ← ih false]
      rfl
    · rw [heq, dropGap, ih]
      rintro rest rfl hrest
      have hhead := congrArg List.head? hrest
      refine Text.head?_withReturns_ne (c := '/') (by decide) ?_ _ hhead
      intro hslash
      obtain ⟨tail, rfl⟩ := List.head?_eq_some_iff.mp hslash
      exact hclose tail rfl rfl

theorem EndsWord.withReturns {text : Text} (h : EndsWord text) (escaped : Bool) :
    EndsWord (withReturns escaped text) := by
  intro c rest heq
  have hhead : (Text.withReturns escaped text).head? = some c := congrArg List.head? heq
  rcases Text.head?_withReturns escaped text with hsame | hreturn
  · obtain ⟨tail, rfl⟩ := List.head?_eq_some_iff.mp (hsame.symm.trans hhead)
    exact h c tail rfl
  · obtain rfl := Option.some.inj (hreturn.symm.trans hhead)
    rfl

end Token

namespace Cursor

/-- The line gets a carriage return at its end, and no other. -/
theorem cutLine_withReturns (escaped : Bool) (text : Text) :
    ∃ blank, (blank = [] ∨ blank = ['\r']) ∧
      cutLine escaped (Text.withReturns escaped text) =
        ((cutLine escaped text).1 ++ blank, Text.withReturns false (cutLine escaped text).2) := by
  induction text generalizing escaped with
  | nil => exact ⟨[], Or.inl rfl, rfl⟩
  | cons c text ih =>
    rw [Text.withReturns, cutLine]
    split
    · exact ⟨['\r'], Or.inr rfl, rfl⟩
    · next hline =>
      obtain ⟨blank, hblank, hcut⟩ := ih (c == '\\')
      refine ⟨blank, hblank, ?_⟩
      rw [cutLine, if_neg hline, hcut]
      rfl

end Cursor

namespace Document

theorem fieldOf_append_blank {blank : Text} (h : blank = [] ∨ blank = ['\r']) (line : Text) :
    fieldOf (line ++ blank) = fieldOf line := by
  rcases h with rfl | rfl
  · rw [List.append_nil]
  · rw [fieldOf, fieldOf, Text.joined_append_of_head (by decide),
      ← Field.ofContent_trimRight (_ ++ _), Text.trimRight_append_of_nil rfl,
      Field.ofContent_trimRight]

theorem harmless_returns : Harmless Text.Unquoted (Text.withReturns false) where
  piece := Text.Unquoted.of_infix
  unquoted := id
  nil := rfl
  word rest hword := Text.withReturns_append hword.no_lineFeed hword.no_backslash rest
  endsWord hends := hends.withReturns false
  gap := fun {text} _ => Token.dropGap_withReturns .between false text
  field rest hword := by
    obtain ⟨blank, hblank, hcut⟩ := Cursor.cutLine_withReturns false rest
    rw [hcut, ← List.append_assoc, fieldOf_append_blank hblank]
  below rest := by
    obtain ⟨blank, -, hcut⟩ := Cursor.cutLine_withReturns false rest
    rw [hcut]

end Document

namespace Layout

/-- **Carriage returns at the ends of lines do not matter.** Where no line is
continued, these are all line feeds. -/
theorem returns_ofText {text : Text} (h : text.Unquoted) :
    outcome (ofText (text.withReturns false)) = outcome (ofText text) ∧
      (¬ ['\\', '\n'] <:+: text →
        outcome (ofText (Text.replaceChar '\n' ['\r', '\n'] text)) = outcome (ofText text)) := by
  have hreturns : outcome (ofText (text.withReturns false)) = outcome (ofText text) :=
    Document.harmless_returns.ofText h (Text.trimRight_withReturns false text)
  refine ⟨hreturns, fun hpair => ?_⟩
  rw [Text.replaceChar_eq_withReturns hpair]
  exact hreturns

/-- A macro with a comment through the end of its line, an enumeration over two
lines, and a field. -/
theorem returns_ofText_lines :
    let text := "#define RED 1 // rot\nenum \x7b\nBLUE \x7d;\nkind:3::red,blue\n".toList
    let layout : Layout :=
      { fields :=
          [⟨"kind".toList, 3, some 0, none, ["red".toList, "blue".toList], none,
            Table.ofList [("RED".toList, 1), ("BLUE".toList, 0)]⟩]
        bits := ∅
        enumTypes := ⟨Table.ofList [("RED".toList, 1), ("BLUE".toList, 0)], ∅⟩
        width := 3 }
    Text.Unquoted text ∧ ¬ ['\\', '\n'] <:+: text ∧ ofText text = .ok layout ∧
      ofText (Text.withReturns false text) = .ok layout ∧
      ofText (Text.replaceChar '\n' ['\r', '\n'] text) = .ok layout := by
  intro text layout
  have hquotes : Text.Unquoted text := by decide
  have hpair : ¬ ['\\', '\n'] <:+: text := by decide
  have hok : ofText text = .ok layout := by decide +kernel
  obtain ⟨hreturns, hreplaced⟩ := returns_ofText hquotes
  rw [hok] at hreturns hreplaced
  exact ⟨hquotes, hpair, hok, outcome_eq_ok_iff.mp hreturns,
    outcome_eq_ok_iff.mp (hreplaced hpair)⟩

/-- A carriage return between the backslash and the line feed: the line ends there,
and what would continue it is a field of its own. -/
theorem returns_ofText_continued :
    let text := "a:3:\\\nred".toList
    let layout : Layout :=
      { fields := [⟨['a'], 3, some 0, some "red".toList, [], none, ∅⟩]
        bits := ∅
        enumTypes := ∅
        width := 3 }
    let other : Layout :=
      { fields :=
          [⟨['a'], 3, some 1, some ['\\'], [], none, ∅⟩,
           ⟨"red".toList, 1, some 0, none, [], none, ∅⟩]
        bits := ∅
        enumTypes := ∅
        width := 4 }
    '\r' ∉ text ∧ Text.Unquoted text ∧ ofText text = .ok layout ∧
      ofText (Text.replaceChar '\n' ['\r', '\n'] text) = .ok other ∧
      outcome (ofText (Text.replaceChar '\n' ['\r', '\n'] text)) ≠ outcome (ofText text) := by
  intro text layout other
  have hquotes : Text.Unquoted text := by decide
  have hok : ofText text = .ok layout := by decide +kernel
  have hother : ofText (Text.replaceChar '\n' ['\r', '\n'] text) = .ok other := by
    decide +kernel
  refine ⟨by decide, hquotes, hok, hother, ?_⟩
  rw [hok, hother]
  intro heq
  have hwidth : (4 : Int) = 3 := congrArg Layout.width (Except.ok.inj heq)
  omega

end Layout

end BitLayout
