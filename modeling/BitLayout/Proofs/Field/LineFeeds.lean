import BitLayout.Proofs.Cursor.Facing
import BitLayout.Proofs.Document.Continuation
import BitLayout.Proofs.Field.RoundTrip
import BitLayout.Proofs.Token.Literal

/-!
# Line feeds in the lines of fields

The line of a field ends at the first line feed behind its first token, apart
from those that a backslash joins. So the line feeds that a field can have come
from a literal that its line begins with (`Text.FeedsQuoted`), and they are
written into such a literal again, since nothing that is written in another
way than it was read closes the literal earlier (`feedsQuoted_describe`).

A field is `Readable` if some line of this kind is read as the field.
`readable_of_read` says that of all fields that a description declares.
-/

namespace BitLayout

namespace Token

variable {quote sep : Char}

/-- A text that is cut at a separator may be written in two pieces. -/
theorem keeps_of_cutAt (hslash : sep ≠ '\\') (hquote : sep ≠ quote) (hfeed : sep ≠ '\n')
    {text front rest : Text} (hfront : KeepsOpen quote (Text.cutAt sep text).1 front)
    (hrest : Keeps quote (Text.cutAt sep text).2 rest) :
    Keeps quote text (front ++ sep :: rest) := by
  by_cases hmem : sep ∈ text
  · obtain ⟨first, others, rfl, hnot⟩ := List.eq_append_cons_of_mem hmem
    rw [Text.cutAt_append hnot] at hfront hrest
    exact .append_cons hslash hquote hfeed hfront hrest
  · rw [Text.cutAt_of_not_mem hmem] at hfront hrest
    have hplain : '\n' ∉ sep :: rest := by
      intro hin
      rcases List.mem_cons.mp hin with heq | hin
      · exact hfeed heq.symm
      · cases hrest.feeds hin
    refine ⟨fun hin => ?_, fun h => (hfront.sheltered h).append_of_not_mem hplain⟩
    rcases List.mem_append.mp hin with hin | hin
    · exact hfront.feeds hin
    · exact absurd hin hplain

/-- Pieces may be trimmed, and the empty ones left out. -/
theorem keepsOpen_pieces (hvisible : Text.isSpace quote = false) (hslash : sep ≠ '\\')
    (hquote : sep ≠ quote) (hfeed : sep ≠ '\n') (pieces : List Text) :
    KeepsOpen quote (Text.joinWith [sep] pieces)
      (Text.joinWith [sep] ((pieces.map Text.trim).filter (· ≠ []))) := by
  induction pieces with
  | nil => exact .refl []
  | cons piece pieces ih =>
    have hpiece := keepsOpen_trim hvisible piece
    rw [List.map_cons, List.filter_cons]
    cases pieces with
    | nil =>
      split
      · exact hpiece
      · next hempty =>
        have hnil : Text.trim piece = [] := by simpa using hempty
        rw [hnil] at hpiece
        exact hpiece
    | cons other pieces =>
      rw [Text.joinWith_cons_cons, List.singleton_append]
      split
      · cases hwritten : ((other :: pieces).map Text.trim).filter (· ≠ []) with
        | nil => exact hpiece.of_append _
        | cons first others =>
          rw [hwritten] at ih
          rw [Text.joinWith_cons_cons, List.singleton_append]
          exact .append_cons hslash hquote hfeed hpiece ih
      · exact ih.behind hslash hquote piece

end Token

namespace Text

theorem joinWith_isPrefix (sep first : Text) (pieces others : List Text) :
    joinWith sep (first :: pieces) <+: joinWith sep (first :: (pieces ++ others)) := by
  induction pieces generalizing first with
  | nil =>
    cases others with
    | nil => exact List.prefix_refl first
    | cons other others =>
      rw [List.nil_append, joinWith_cons_cons]
      exact List.prefix_append first _
  | cons piece pieces ih =>
    rw [List.cons_append, joinWith_cons_cons, joinWith_cons_cons, List.prefix_append_right_inj,
      List.prefix_append_right_inj]
    exact ih piece

theorem trim_cons_of_visible {c : Char} (h : isSpace c = false) (text : Text) :
    trim (c :: text) = c :: trimRight text := by
  rw [trim, trimRight_cons_of_not_space h, trimLeft, List.dropWhile_cons_of_neg (by simp [h])]

theorem cutAt_cons {sep c : Char} (h : c ≠ sep) (text : Text) :
    cutAt sep (c :: text) = (c :: (cutAt sep text).1, (cutAt sep text).2) := by
  simp [cutAt, h]

end Text

namespace Numeral

theorem mem_decimal {value : Int} {c : Char} (h : c ∈ decimal value) :
    c = '-' ∨ ∃ d < 10, c = Nat.digitChar d := by
  rw [decimal, render] at h
  rcases List.mem_append.mp h with h | h
  · split at h
    · rcases List.mem_append.mp h with h | h
      · exact Or.inl (List.mem_singleton.mp h)
      · cases h
    · cases h
  · exact Or.inr (mem_digits h)

end Numeral

namespace Field

open Token (IsQuote Keeps KeepsOpen)

/-! ## What a line keeps -/

/-- The characters of a width segment play no part in literals, or at the ends of
lines. -/
theorem mem_describeExtent {field : Field} {c : Char} (h : c ∈ field.describeExtent) :
    c ≠ '\\' ∧ c ≠ '\n' ∧ ¬ IsQuote c := by
  have hdecimal : ∀ value : Int, c ∈ Numeral.decimal value → c ≠ '\\' ∧ c ≠ '\n' ∧ ¬ IsQuote c := by
    intro value hc
    have hdigits : ∀ d < 10, Nat.digitChar d ≠ '\\' ∧ Nat.digitChar d ≠ '\n' ∧
        ¬ IsQuote (Nat.digitChar d) := by
      unfold IsQuote
      decide
    rcases Numeral.mem_decimal hc with rfl | ⟨d, hd, rfl⟩
    · simp [IsQuote]
    · exact hdigits d hd
  rw [describeExtent] at h
  split at h
  · rcases List.mem_cons.mp h with rfl | h
    · simp [IsQuote]
    · split at h
      · exact hdecimal _ h
      · simp only [List.mem_cons, List.not_mem_nil, or_false] at h
        rcases h with rfl | rfl | rfl | rfl <;> simp [IsQuote]
  · split at h
    · cases h
    · exact hdecimal _ h

theorem keepsOpen_describeExtent {quote : Char} (hquote : IsQuote quote) (text : Text)
    (field : Field) : KeepsOpen quote text field.describeExtent := by
  have hfeed : '\n' ∉ field.describeExtent := fun hmem => (mem_describeExtent hmem).2.1 rfl
  refine ⟨Token.keeps_of_not_mem hfeed, fun _ => Token.open_of_not_mem ?_ ?_⟩
  · exact fun hmem => (mem_describeExtent hmem).1 rfl
  · exact fun hmem => (mem_describeExtent hmem).2.2 hquote

/-- What stands behind the name in the line of a field. -/
def describeBehind (field : Field) : Text :=
  field.describeExtent ++ ':' :: (field.color.getD [] ++ ':' ::
    (Text.joinWith [','] field.enumRefs ++ ':' ::
      Text.replaceChar '\n' ['\\', 'n'] (field.comment.getD [])))

theorem joinWith_dropEmptyEnd (pieces : List Text) :
    Text.joinWith [':'] (dropEmptyEnd pieces) <+: Text.joinWith [':'] pieces := by
  cases pieces with
  | nil => exact List.prefix_refl _
  | cons first others =>
    have hcut : (others.reverse.dropWhile (· = [])).reverse ++
        (others.reverse.takeWhile (· = [])).reverse = others := by
      rw [← List.reverse_append, List.takeWhile_append_dropWhile, List.reverse_reverse]
    have hprefix := Text.joinWith_isPrefix [':'] first (others.reverse.dropWhile (· = [])).reverse
      (others.reverse.takeWhile (· = [])).reverse
    rwa [hcut] at hprefix

theorem describe_isPrefix (field : Field) :
    field.describe <+: field.name ++ ':' :: field.describeBehind := by
  have h := joinWith_dropEmptyEnd [field.name, field.describeExtent, field.color.getD [],
    Text.joinWith [','] field.enumRefs,
    Text.replaceChar '\n' ['\\', 'n'] (field.comment.getD [])]
  simpa [Text.joinWith, describeBehind, describe] using h

/-- The segments behind a name keep the line feeds of the line they are read from. -/
theorem keeps_describeBehind {quote : Char} (hquote : IsQuote quote) {text : Text} {field : Field}
    (hcolor : field.color.getD [] =
      Text.trim (Text.cutAt ':' (Text.cutAt ':' text).2).1)
    (hrefs : field.enumRefs =
      readRefs (Text.trim (Text.cutAt ':' (Text.cutAt ':' (Text.cutAt ':' text).2).2).1)) :
    Keeps quote text field.describeBehind := by
  have hcolon : ':' ≠ quote := hquote.ne (by simp [IsQuote])
  have hcomma : ',' ≠ quote := hquote.ne (by simp [IsQuote])
  have hvisible := hquote.visible
  have hcut : ∀ {text front rest : Text}, KeepsOpen quote (Text.cutAt ':' text).1 front →
      Keeps quote (Text.cutAt ':' text).2 rest → Keeps quote text (front ++ ':' :: rest) :=
    Token.keeps_of_cutAt (by decide) hcolon (by decide)
  refine hcut (keepsOpen_describeExtent hquote _ field) (hcut ?_ (hcut ?_ ?_))
  · rw [hcolor]
    exact Token.keepsOpen_trim hvisible _
  · have hpieces := Token.keepsOpen_pieces hvisible (by decide) hcomma (by decide)
      (Text.splitOn ',' (Text.trim
        (Text.cutAt ':' (Text.cutAt ':' (Text.cutAt ':' text).2).2).1))
    rw [Text.joinWith_splitOn] at hpieces
    rw [hrefs]
    exact (Token.keepsOpen_trim hvisible _).trans hpieces
  · exact Token.keeps_of_not_mem (Text.not_mem_replaceChar (by decide) (by decide) _)

/-- **Line feeds stay quoted** when a field is written. -/
theorem feedsQuoted_describe {line : Text} {field : Field} (hline : line.FeedsQuoted)
    (h : ofContent line = .ok field) : field.describe.FeedsQuoted := by
  obtain ⟨extent, -, hfield⟩ := ofContent_eq_ok_iff.mp h
  have hname : field.name = Text.trim (Text.cutAt ':' (Text.trim line)).1 := by
    rw [← hfield]
    rfl
  have hkeeps : ∀ {quote : Char}, IsQuote quote →
      Keeps quote (Text.cutAt ':' (Text.trim line)).2 field.describeBehind := by
    intro quote hquote
    refine keeps_describeBehind hquote ?_ ?_
    · rw [← hfield]
      simp only [Segments.field, Segments.ofLine, getD_nonempty?]
    · rw [← hfield]
      simp only [Segments.field, Segments.ofLine]
  have hwhole := describe_isPrefix field
  intro hmem
  have hfeed : '\n' ∈ line := by
    have htrim : '\n' ∈ Text.trim line := by
      rcases List.mem_append.mp (hwhole.subset hmem) with hmem | hmem
      · rw [hname] at hmem
        exact (Text.cutAt_isPrefix ':' _).subset ((Text.isInfix_trim _).subset hmem)
      · rcases List.mem_cons.mp hmem with heq | hmem
        · exact absurd heq (by decide)
        · exact (Text.cutAt_isSuffix ':' _).subset ((hkeeps (Or.inl rfl)).feeds hmem)
    exact (Text.isInfix_trim line).subset htrim
  obtain ⟨quote, rest, rfl, hquote, hsheltered⟩ := hline hfeed
  have hcolon : quote ≠ ':' := (hquote.ne (by simp [IsQuote])).symm
  have hbehind := hkeeps hquote
  rw [Text.trim_cons_of_visible hquote.visible, Text.cutAt_cons hcolon] at hname hbehind
  rw [Text.trim_cons_of_visible hquote.visible] at hname
  obtain ⟨tail, htail, -⟩ := Text.trimRight_append rest
  rw [htail] at hsheltered
  obtain ⟨end', hend, -⟩ := Text.trimRight_append (Text.cutAt ':' (Text.trimRight rest)).1
  have hfront : KeepsOpen quote (Text.cutAt ':' (Text.trimRight rest)).1
      (Text.trimRight (Text.cutAt ':' (Text.trimRight rest)).1) := by
    conv => arg 2; rw [hend]
    exact (KeepsOpen.refl _).of_append end'
  have hkept := Token.keeps_of_cutAt (by decide) hcolon.symm (by decide) hfront hbehind
  rw [hname, List.cons_append] at hwhole
  cases hwritten : field.describe with
  | nil =>
    rw [hwritten] at hmem
    cases hmem
  | cons c written =>
    rw [hwritten] at hwhole
    obtain ⟨rfl, behind, hcut⟩ := List.cons_prefix_cons.mp hwhole
    have hall := hkept.sheltered hsheltered.of_append
    rw [← hcut] at hall
    exact ⟨c, written, rfl, hquote, hall.of_append⟩

/-- The field is what a line says that a description can have. -/
def Readable (field : Field) : Prop :=
  ∃ line : Text, line.FeedsQuoted ∧ ofContent line = .ok field

end Field

/-! ## Lines of a description -/

namespace Token

/-- A token that ends in a backslash is a literal that nothing closes. -/
theorem eq_of_last_backslash {c : Char} {rest tail : Text} (hslash : c ≠ '\\')
    (hword : (lexeme c rest).2 = c :: tail) (hlast : (c :: tail).getLast? = some '\\') :
    rest = tail := by
  by_cases hquote : IsQuote c
  · obtain rfl : literalTail c rest = tail :=
      (List.cons.inj ((lexeme_quote hquote rest).symm.trans hword)).2
    rcases literal_cases hslash rest with ⟨-, htail⟩ | ⟨body, tail, rfl, -, hclosed⟩
    · exact htail.symm
    · rw [hclosed, ← List.cons_append, List.getLast?_concat] at hlast
      exact absurd (Option.some.inj hlast) hslash
  · rcases List.mem_cons.mp (List.mem_of_getLast? hlast) with heq | hmem
    · exact absurd heq.symm hslash
    · exact absurd rfl (not_wordChar (word_of_lexeme hquote hword hmem) rfl)

end Token

namespace Cursor

theorem cutLine_fst_isPrefix (escaped : Bool) (text : Text) :
    (cutLine escaped text).1 <+: text := by
  rw [cutLine_eq]
  split
  · exact List.take_prefix _ _
  · exact List.prefix_refl _

/-- Where no line feed is joined, the rest of a line has none. -/
theorem not_mem_cutLine {escaped : Bool} {text : Text} (hpair : ¬ ['\\', '\n'] <:+: text)
    (hescaped : escaped = true → text.head? ≠ some '\n') : '\n' ∉ (cutLine escaped text).1 := by
  induction text generalizing escaped with
  | nil => exact List.not_mem_nil
  | cons c text ih =>
    have hbehind : ¬ ['\\', '\n'] <:+: text := fun hin =>
      hpair (hin.trans (List.suffix_cons c text).isInfix)
    rw [cutLine]
    split
    · exact List.not_mem_nil
    · next hline =>
      intro hmem
      rcases List.mem_cons.mp hmem with rfl | hmem
      · cases escaped with
        | true => exact hescaped rfl rfl
        | false => exact hline ⟨rfl, rfl⟩
      · refine ih hbehind (fun heq hhead => hpair ?_) hmem
        obtain rfl : c = '\\' := eq_of_beq heq
        obtain ⟨others, rfl⟩ := List.head?_eq_some_iff.mp hhead
        exact (List.prefix_append ['\\', '\n'] others).isInfix

theorem dropGap_ahead (cursor : Cursor) :
    Token.dropGap .between cursor.ahead = cursor.ahead := by
  rw [ahead]
  split
  · rfl
  · exact Token.dropGap_dropGap .between _

section Line

variable {cursor behind : Cursor} {token : Token} {rest : Text}

/-- The line of a token is the token and, behind it, what no line feed ends. -/
theorem exists_slice (h : cursor.next = (some token, behind))
    (hahead : cursor.ahead = token.text ++ rest)
    (hend : token.text.getLast? = some '\\' → rest = []) :
    ∃ cut, behind.slice (some token.offset) (some (behind.split ['\n']).1) = token.text ++ cut ∧
      cut <+: rest ∧ '\n' ∉ Text.joined cut := by
  by_cases hlast : token.text.getLast? = some '\\'
  · obtain rfl := hend hlast
    obtain ⟨-, hpos, hdrop⟩ := drop_stop h hahead
    exact ⟨[], (split_end hdrop hpos List.not_mem_nil).2, List.nil_prefix, List.not_mem_nil⟩
  · have hjoined : Text.joined (cutLine false rest).1 = (cutLine false rest.joined).1 := by
      rw [cutLine_joined]
    refine ⟨(cutLine false rest).1, (split_behind_token h hahead hlast).1,
      cutLine_fst_isPrefix false rest, ?_⟩
    rw [hjoined]
    exact not_mem_cutLine (Text.not_infix_joined rest) nofun

/-- **The line of a token**: its line feeds are those of the token, if it is a literal. -/
theorem feedsQuoted_slice (h : cursor.next = (some token, behind)) :
    Text.FeedsQuoted
      (Text.joined (behind.slice (some token.offset) (some (behind.split ['\n']).1))) := by
  obtain ⟨c, rest, hahead, -, hlex, -⟩ := next_eq_some h
  have htext : (Token.lexeme c rest).2 = token.text := congrArg Prod.snd hlex.symm
  obtain ⟨tail, hword⟩ := Token.exists_lexeme c rest
  obtain ⟨after, hafter⟩ := Token.isPrefix_lexeme c rest
  rw [hword] at hafter htext
  obtain rfl : tail ++ after = rest := (List.cons.inj hafter).2
  have hstop := dropGap_ahead cursor
  rw [hahead] at hstop
  obtain ⟨hblank, hslash, -⟩ := Token.stop_of_dropGap hstop
  have hfeed : c ≠ '\n' := by
    rintro rfl
    cases hblank
  have hend : token.text.getLast? = some '\\' → after = [] := by
    intro hlast
    rw [← htext] at hlast
    exact List.append_right_eq_self.mp (Token.eq_of_last_backslash hslash hword hlast)
  obtain ⟨cut, hslice, hcut, hjoined⟩ := exists_slice h (hahead.trans (by rw [← htext]; rfl)) hend
  rw [hslice, ← htext]
  exact Text.feedsQuoted_joined hslash hfeed hword rfl hcut hjoined

end Line

end Cursor

/-! ## All fields of a description -/

/-- What an item says of a field can be read from a line. -/
def Item.Readable : Item → Prop
  | .define _ _ => True
  | .enumeration _ _ => True
  | .field f => f.Readable
  | .indicator _ f => f.Readable

namespace Document

theorem readable_readField {cursor behind later : Cursor} {token : Token} {item : Item}
    (hnext : cursor.next = (some token, behind))
    (h : readField token.offset behind = .ok (item, later)) : item.Readable := by
  have hquoted := Cursor.feedsQuoted_slice hnext
  simp only [readField] at h
  split at h
  · cases h
  · next field hfield =>
    split at h
    · cases h
      exact ⟨_, hquoted, hfield⟩
    · cases h
      exact ⟨_, hquoted, hfield⟩

theorem readable_readItem {cursor behind later : Cursor} {token : Token} {item : Item}
    (hnext : cursor.next = (some token, behind))
    (h : readItem token behind = .ok (item, later)) : item.Readable := by
  rcases readItem_cases h with ⟨_, _, _, rfl, -⟩ | ⟨_, _, rfl⟩ | hfield
  · trivial
  · trivial
  · exact readable_readField hnext hfield

theorem readable_of_read {text : Text} {items : List Item} (h : read text = .ok items) :
    ∀ item ∈ items, item.Readable :=
  forall_readItems (fun hnext hitem => readable_readItem hnext hitem) h

end Document

end BitLayout
