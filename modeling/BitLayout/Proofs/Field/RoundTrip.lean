import BitLayout.Proofs.Layout.Declared
import BitLayout.Proofs.Numeral.RoundTrip
import BitLayout.Proofs.Text.Joined
import BitLayout.Proofs.Token.Front

/-!
# Fields are read back

A line is taken apart at its colons, and what stands between them is
trimmed (`Segments.ofLine`). Segments without colons and without white space
at their ends are found again in the line that they are written on, also
when the empty ones at the end are left out (`Segments.ofLine_text`).

A field is written from segments of this kind. They need not be those it was
read from: references lose what was empty between commas, a width of one is
left out, and a line feed in a comment is written as it would be read. But
each is read as the same part of the field, so the line that `describe`
writes is read as the field (`ofContent_describe`). Its number is one that was
read, so it is not too long to be written (`describe?_of_ofContent`).
-/

namespace BitLayout

namespace Text

/-! ## Trimmed texts -/

/-- There is no white space at either end. -/
structure Trimmed (text : Text) : Prop where
  front : ∀ c, text.head? = some c → isSpace c = false
  back : ∀ c, text.getLast? = some c → isSpace c = false

theorem trimmed_nil : Trimmed [] :=
  ⟨nofun, nofun⟩

theorem trimmed_of_visible {text : Text} (h : ∀ c ∈ text, isSpace c = false) : text.Trimmed :=
  ⟨fun c hc => h c (List.mem_of_head? hc), fun c hc => h c (List.mem_of_getLast? hc)⟩

theorem trimmed_trim (text : Text) : (trim text).Trimmed := by
  refine ⟨fun c hc => ?_, fun c hc => ?_⟩
  · have hnot := List.head?_dropWhile_not isSpace (trimRight text)
    rw [trim, trimLeft] at hc
    rwa [hc] at hnot
  · obtain ⟨front, hfront⟩ := List.dropWhile_suffix isSpace (l := trimRight text)
    have hlast : (trimRight text).getLast? = some c := by
      rw [← hfront, List.getLast?_append, show List.dropWhile isSpace (trimRight text) =
        trim text from rfl, hc]
      rfl
    have hnot := List.head?_dropWhile_not isSpace text.reverse
    rw [trimRight, List.getLast?_reverse] at hlast
    rwa [hlast] at hnot

theorem Trimmed.trimRight_eq {text : Text} (h : text.Trimmed) : trimRight text = text := by
  rcases List.eq_nil_or_concat' text with rfl | ⟨front, c, rfl⟩
  · rfl
  · have hc := h.back c List.getLast?_concat
    rw [← List.append_nil (front ++ [c]), trimRight_append_of_last hc]
    rfl

theorem Trimmed.trim_eq {text : Text} (h : text.Trimmed) : trim text = text := by
  rw [trim, h.trimRight_eq, trimLeft]
  cases text with
  | nil => rfl
  | cons c text => rw [List.dropWhile_cons_of_neg (by simp [h.front c rfl])]

theorem joinWith_cons_cons (sep piece other : Text) (pieces : List Text) :
    joinWith sep (piece :: other :: pieces) =
      piece ++ (sep ++ joinWith sep (other :: pieces)) := by
  rw [joinWith, List.append_assoc]
  exact List.cons_ne_nil other pieces

/-- Trimmed pieces with visible separators between them. -/
theorem trimmed_joinWith {sep : Char} (hsep : isSpace sep = false) {pieces : List Text}
    (h : ∀ piece ∈ pieces, piece.Trimmed) : (joinWith [sep] pieces).Trimmed := by
  induction pieces with
  | nil => exact trimmed_nil
  | cons piece pieces ih =>
    have hpiece := h piece List.mem_cons_self
    have hothers := ih fun other hother => h other (List.mem_cons_of_mem piece hother)
    cases pieces with
    | nil => exact hpiece
    | cons other pieces =>
      rw [joinWith_cons_cons]
      refine ⟨fun c hc => ?_, fun c hc => ?_⟩
      · cases piece with
        | nil =>
          obtain rfl : sep = c := Option.some.inj hc
          exact hsep
        | cons d piece => exact hpiece.front c hc
      · rw [List.getLast?_append, List.singleton_append, List.getLast?_cons] at hc
        cases hlast : (joinWith [sep] (other :: pieces)).getLast? with
        | none =>
          rw [hlast] at hc
          obtain rfl : sep = c := Option.some.inj hc
          exact hsep
        | some d =>
          rw [hlast] at hc
          obtain rfl : d = c := Option.some.inj hc
          exact hothers.back d hlast

/-! ## Separators -/

theorem cutAt_append {sep : Char} {front : Text} (h : sep ∉ front) (rest : Text) :
    cutAt sep (front ++ sep :: rest) = (front, rest) := by
  have hall : ∀ c ∈ front, decide (c ≠ sep) = true :=
    fun c hc => decide_eq_true fun heq => h (heq ▸ hc)
  rw [cutAt, List.takeWhile_append_of_pos hall, List.dropWhile_append_of_pos hall]
  simp

theorem cutAt_of_not_mem {sep : Char} {text : Text} (h : sep ∉ text) :
    cutAt sep text = (text, []) := by
  have hall : ∀ c ∈ text, decide (c ≠ sep) = true :=
    fun c hc => decide_eq_true fun heq => h (heq ▸ hc)
  rw [cutAt, List.takeWhile_eq_self_iff.mpr hall, List.dropWhile_eq_nil_iff.mpr hall]
  rfl

theorem not_mem_cutAt (sep : Char) (text : Text) : sep ∉ (cutAt sep text).1 := by
  intro hmem
  have hne := List.mem_takeWhile_imp (p := fun c => decide (c ≠ sep)) hmem
  exact of_decide_eq_true hne rfl

theorem splitOn_of_not_mem {sep : Char} {text : Text} (h : sep ∉ text) :
    splitOn sep text = [text] := by
  induction text with
  | nil => rfl
  | cons c text ih =>
    have hc : ¬ c = sep := fun heq => h (heq ▸ List.mem_cons_self)
    rw [splitOn, if_neg hc, ih (List.not_mem_of_not_mem_cons h)]

theorem splitOn_append {sep : Char} {front : Text} (h : sep ∉ front) (rest : Text) :
    splitOn sep (front ++ sep :: rest) = front :: splitOn sep rest := by
  induction front with
  | nil => rw [List.nil_append, splitOn, if_pos rfl]
  | cons c front ih =>
    have hc : ¬ c = sep := fun heq => h (heq ▸ List.mem_cons_self)
    rw [List.cons_append, splitOn, if_neg hc, ih (List.not_mem_of_not_mem_cons h)]

theorem splitOn_joinWith {sep : Char} {pieces : List Text} (hne : pieces ≠ [])
    (h : ∀ piece ∈ pieces, sep ∉ piece) : splitOn sep (joinWith [sep] pieces) = pieces := by
  induction pieces with
  | nil => exact absurd rfl hne
  | cons piece pieces ih =>
    have hpiece := h piece List.mem_cons_self
    cases pieces with
    | nil => exact splitOn_of_not_mem hpiece
    | cons other pieces =>
      rw [joinWith_cons_cons, List.singleton_append, splitOn_append hpiece,
        ih (List.cons_ne_nil other pieces) fun p hp => h p (List.mem_cons_of_mem piece hp)]

theorem mem_joinWith {sep c : Char} {pieces : List Text} (h : c ∈ joinWith [sep] pieces) :
    c = sep ∨ ∃ piece ∈ pieces, c ∈ piece := by
  induction pieces with
  | nil => cases h
  | cons piece pieces ih =>
    cases pieces with
    | nil => exact Or.inr ⟨piece, List.mem_cons_self, h⟩
    | cons other pieces =>
      rw [joinWith_cons_cons] at h
      rcases List.mem_append.mp h with h | h
      · exact Or.inr ⟨piece, List.mem_cons_self, h⟩
      · rcases List.mem_cons.mp h with rfl | h
        · exact Or.inl rfl
        · rcases ih h with heq | ⟨found, hfound, hmem⟩
          · exact Or.inl heq
          · exact Or.inr ⟨found, List.mem_cons_of_mem piece hfound, hmem⟩

theorem mem_splitOn {sep : Char} {text piece : Text} (h : piece ∈ splitOn sep text) :
    sep ∉ piece ∧ piece <:+: text := by
  induction text generalizing piece with
  | nil =>
    obtain rfl := List.mem_singleton.mp h
    exact ⟨List.not_mem_nil, List.nil_infix⟩
  | cons c text ih =>
    have hsuffix := (List.suffix_cons c text).isInfix
    rw [splitOn] at h
    split at h
    · rcases List.mem_cons.mp h with rfl | h
      · exact ⟨List.not_mem_nil, List.nil_infix⟩
      · obtain ⟨hsep, hinfix⟩ := ih h
        exact ⟨hsep, hinfix.trans hsuffix⟩
    · next hc =>
      obtain ⟨first, others, hsplit⟩ := List.exists_cons_of_ne_nil (splitOn_ne_nil sep text)
      rw [hsplit] at h ih
      rcases List.mem_cons.mp h with rfl | h
      · obtain ⟨hsep, -⟩ := ih List.mem_cons_self
        refine ⟨?_, ?_⟩
        · intro hmem
          rcases List.mem_cons.mp hmem with heq | hmem
          · exact hc heq.symm
          · exact hsep hmem
        · have hwhole := joinWith_splitOn sep text
          rw [hsplit] at hwhole
          refine (List.cons_prefix_cons.mpr ⟨rfl, ?_⟩).isInfix
          rw [← hwhole]
          cases others with
          | nil => exact List.prefix_refl _
          | cons other others =>
            rw [joinWith_cons_cons]
            exact List.prefix_append _ _
      · obtain ⟨hsep, hinfix⟩ := ih (List.mem_cons_of_mem first h)
        exact ⟨hsep, hinfix.trans hsuffix⟩

/-! ## Replacing and putting back -/

/-- The pair is put back for each of the characters, and replaced again. -/
theorem replacePair_replaceChar {a b new : Char} (ha : a ≠ new) (hab : a ≠ b) {text : Text}
    (h : ¬ [a, b] <:+: text) : replacePair a b [new] (replaceChar new [a, b] text) = text := by
  induction text with
  | nil => rfl
  | cons c text ih =>
    have hrest := ih fun hin => h (hin.trans (List.suffix_cons c text).isInfix)
    by_cases hc : c = new
    · subst hc
      have hcons : replaceChar c [a, b] (c :: text) = a :: b :: replaceChar c [a, b] text := by
        simp [replaceChar]
      rw [hcons, replacePair, if_pos ⟨rfl, rfl⟩, hrest, List.singleton_append]
    · have hcons : replaceChar new [a, b] (c :: text) = c :: replaceChar new [a, b] text := by
        simp [replaceChar, hc]
      rw [hcons, replacePair_cons, hrest]
      rintro rfl hhead
      cases text with
      | nil => cases hhead
      | cons d text =>
        by_cases hd : d = new
        · subst hd
          simp only [replaceChar, List.flatMap_cons, if_true] at hhead
          exact hab (Option.some.inj hhead)
        · simp only [replaceChar, List.flatMap_cons, if_neg hd] at hhead
          obtain rfl : d = b := Option.some.inj hhead
          exact h ⟨[], text, rfl⟩

theorem not_mem_replaceChar {a b new : Char} (ha : a ≠ new) (hb : b ≠ new) (text : Text) :
    new ∉ replaceChar new [a, b] text := by
  intro hmem
  obtain ⟨c, -, hc⟩ := List.mem_flatMap.mp hmem
  split at hc
  · simp only [List.mem_cons, List.not_mem_nil, or_false] at hc
    rcases hc with heq | heq
    · exact ha heq.symm
    · exact hb heq.symm
  · next hne => exact hne (List.mem_singleton.mp hc).symm

/-- Putting visible characters in the place of one leaves trimmed what was trimmed
otherwise. -/
theorem trimmed_replaceChar {a b new : Char} (ha : isSpace a = false) (hb : isSpace b = false)
    {text : Text} (hfront : ∀ c, text.head? = some c → c = new ∨ isSpace c = false)
    (hback : ∀ c, text.getLast? = some c → c = new ∨ isSpace c = false) :
    (replaceChar new [a, b] text).Trimmed := by
  refine ⟨fun c hc => ?_, fun c hc => ?_⟩
  · cases text with
    | nil => cases hc
    | cons d text =>
      simp only [replaceChar, List.flatMap_cons] at hc
      split at hc
      · obtain rfl := Option.some.inj hc
        exact ha
      · next hd =>
        obtain rfl := Option.some.inj hc
        exact (hfront d rfl).resolve_left hd
  · rcases List.eq_nil_or_concat' text with rfl | ⟨front, d, rfl⟩
    · cases hc
    · simp only [replaceChar, List.flatMap_append, List.flatMap_cons, List.flatMap_nil,
        List.append_nil] at hc
      split at hc
      · rw [List.getLast?_append_of_ne_nil _ (List.cons_ne_nil a [b])] at hc
        obtain rfl : b = c := Option.some.inj hc
        exact hb
      · next hd =>
        rw [List.getLast?_concat] at hc
        obtain rfl := Option.some.inj hc
        exact (hback d List.getLast?_concat).resolve_left hd

end Text

namespace Numeral

theorem decimal_natCast (n : Nat) : decimal (n : Int) = digits .dec n := by
  rw [decimal, render_of_nonneg (by omega)]
  rfl

end Numeral

namespace Field

open Text (Trimmed)

/-! ## Segments -/

/-- Segments as a line has them. -/
structure Segments.Clean (segments : Segments) : Prop where
  name : segments.name.Trimmed ∧ ':' ∉ segments.name
  width : segments.width.Trimmed ∧ ':' ∉ segments.width
  color : segments.color.Trimmed ∧ ':' ∉ segments.color
  refs : segments.refs.Trimmed ∧ ':' ∉ segments.refs
  comment : segments.comment.Trimmed

/-- The line of segments, without the empty ones at the end. -/
def Segments.text (segments : Segments) : Text :=
  Text.joinWith [':'] <| dropEmptyEnd
    [segments.name, segments.width, segments.color, segments.refs, segments.comment]

theorem trimmed_cutAt (text : Text) :
    (Text.trim (Text.cutAt ':' text).1).Trimmed ∧ ':' ∉ Text.trim (Text.cutAt ':' text).1 :=
  ⟨Text.trimmed_trim _, fun hmem => Text.not_mem_cutAt ':' text ((Text.isInfix_trim _).subset hmem)⟩

theorem Segments.clean_ofLine (line : Text) : (Segments.ofLine line).Clean where
  name := trimmed_cutAt _
  width := trimmed_cutAt _
  color := trimmed_cutAt _
  refs := trimmed_cutAt _
  comment := Text.trimmed_trim _

theorem Segments.Clean.trimmed_text {segments : Segments} (h : segments.Clean) :
    segments.text.Trimmed := by
  refine Text.trimmed_joinWith (by decide) fun piece hpiece => ?_
  have hmem : piece ∈ [segments.name, segments.width, segments.color, segments.refs,
      segments.comment] := by
    rcases List.mem_cons.mp hpiece with rfl | hpiece
    · exact List.mem_cons_self
    · rw [List.mem_reverse] at hpiece
      exact List.mem_cons_of_mem segments.name
        (List.mem_reverse.mp ((List.dropWhile_suffix _).subset hpiece))
  simp only [List.mem_cons, List.not_mem_nil, or_false] at hmem
  rcases hmem with rfl | rfl | rfl | rfl | rfl
  · exact h.name.1
  · exact h.width.1
  · exact h.color.1
  · exact h.refs.1
  · exact h.comment

/-- **Segments are found again** on their line. The line ends with the last one of
them that is not empty, and those behind it are missing. -/
theorem Segments.ofLine_text {segments : Segments} (h : segments.Clean) :
    Segments.ofLine segments.text = segments := by
  have hline := h.trimmed_text
  obtain ⟨name, width, color, refs, comment⟩ := segments
  obtain ⟨⟨hname, hname'⟩, ⟨hwidth, hwidth'⟩, ⟨hcolor, hcolor'⟩, ⟨hrefs, hrefs'⟩, hcomment⟩ := h
  have hnil : Text.trim [] = [] := rfl
  rw [Segments.ofLine, hline.trim_eq, Segments.text]
  by_cases hcommentNil : comment = []
  · subst hcommentNil
    by_cases hrefsNil : refs = []
    · subst hrefsNil
      by_cases hcolorNil : color = []
      · subst hcolorNil
        by_cases hwidthNil : width = []
        · subst hwidthNil
          simp [dropEmptyEnd, Text.joinWith, Text.cutAt_of_not_mem, hname', hnil,
            hname.trim_eq]
        · simp [dropEmptyEnd, Text.joinWith, Text.cutAt_append, Text.cutAt_of_not_mem, hname',
            hwidth', hwidthNil, hnil, hname.trim_eq, hwidth.trim_eq]
      · simp [dropEmptyEnd, Text.joinWith, Text.cutAt_append, Text.cutAt_of_not_mem, hname',
          hwidth', hcolor', hcolorNil, hnil, hname.trim_eq, hwidth.trim_eq, hcolor.trim_eq]
    · simp [dropEmptyEnd, Text.joinWith, Text.cutAt_append, Text.cutAt_of_not_mem, hname',
        hwidth', hcolor', hrefs', hrefsNil, hnil, hname.trim_eq, hwidth.trim_eq,
        hcolor.trim_eq, hrefs.trim_eq]
  · simp [dropEmptyEnd, Text.joinWith, Text.cutAt_append, hname', hwidth', hcolor', hrefs',
      hcommentNil, hname.trim_eq, hwidth.trim_eq, hcolor.trim_eq, hrefs.trim_eq, hcomment.trim_eq]

/-! ## What a field is written from -/

/-- The segments of a field. -/
def segments (field : Field) : Segments :=
  ⟨field.name, field.describeExtent, field.color.getD [], Text.joinWith [','] field.enumRefs,
    Text.replaceChar '\n' ['\\', 'n'] (field.comment.getD [])⟩

theorem describe_eq (field : Field) : field.describe = field.segments.text := rfl

/-- The number that an extent is about. -/
def Extent.number : Extent → Nat
  | .bits count => count
  | .indicator index => index

theorem readCount_eq_ok_iff {text : Text} {n : Nat} :
    readCount text = .ok n ↔ (text ≠ [] ∧ text.all Text.isAsciiDigit = true) ∧
      ¬ Numeral.TooMany .dec text ∧ Numeral.ofDigits .dec text = n := by
  unfold readCount
  split
  · next hdigits =>
    split
    · next hmany => exact iff_of_false nofun fun h => h.2.1 hmany
    · next hmany =>
      rw [Except.ok.injEq]
      exact ⟨fun h => ⟨hdigits, hmany, h⟩, fun h => h.2.2⟩
  · next hdigits => exact iff_of_false nofun fun h => hdigits h.1

/-- A number that is read can be written. -/
theorem readCount_lt {text : Text} {n : Nat} (h : readCount text = .ok n) :
    n < 10 ^ Numeral.mostDecimals := by
  obtain ⟨⟨-, hall⟩, hmany, rfl⟩ := readCount_eq_ok_iff.mp h
  have hdigits : text.all (Numeral.isDigitOf .dec) = true :=
    List.all_eq_true.mpr fun c hc =>
      (Numeral.isDigitOf_dec c).trans (List.all_eq_true.mp hall c hc)
  have hlength : text.length ≤ Numeral.mostDecimals :=
    Nat.le_of_not_lt fun hlong => hmany ⟨rfl, hlong⟩
  rw [show 10 = Radix.dec.base from rfl]
  exact Nat.lt_of_lt_of_le (Numeral.ofDigits_lt hdigits)
    (Nat.pow_le_pow_right (by decide) hlength)

theorem readExtent_lt {segment : Text} {extent : Extent} (h : readExtent segment = .ok extent) :
    extent.number < 10 ^ Numeral.mostDecimals := by
  have hone : 1 < 10 ^ Numeral.mostDecimals := Nat.one_lt_pow (by decide) (by decide)
  unfold readExtent at h
  split at h
  · obtain rfl := Except.ok.inj h
    exact hone
  · split at h
    · split at h
      · cases h
      · next hcount =>
        obtain rfl := Except.ok.inj h
        exact readCount_lt hcount
      · cases h
    · obtain ⟨index, hindex, rfl⟩ := map_eq_ok_iff.mp h
      exact readCount_lt hindex

theorem readCount_digits {n : Nat} (hshort : n < 10 ^ Numeral.mostDecimals) :
    readCount (Numeral.digits .dec n) = .ok n := by
  have hall : (Numeral.digits .dec n).all Text.isAsciiDigit = true :=
    List.all_eq_true.mpr fun c hc => Numeral.isAsciiDigit_digits hc
  exact readCount_eq_ok_iff.mpr ⟨⟨Nat.toDigits_ne_nil, hall⟩,
    mt (Numeral.tooMany_digits_iff n).mp (Nat.not_le.mpr hshort), Numeral.ofDigits_digits .dec n⟩

/-- A segment that begins with a digit is a width, if it is a number and not zero. -/
theorem readExtent_of_count {segment : Text} {n : Nat} (h : readCount segment = .ok n)
    (hn : n ≠ 0) : readExtent segment = .ok (.bits n) := by
  obtain ⟨⟨hne, hall⟩, -⟩ := readCount_eq_ok_iff.mp h
  cases segment with
  | nil => exact absurd rfl hne
  | cons c rest =>
    have hc : Text.isAsciiDigit c = true := List.all_eq_true.mp hall c List.mem_cons_self
    -- The branch for no bits is ruled out by `hn`.
    simp [readExtent, hc, h]

theorem readExtent_digits {n : Nat} (hshort : n < 10 ^ Numeral.mostDecimals) (hn : n ≠ 0) :
    readExtent (Numeral.digits .dec n) = .ok (.bits n) :=
  readExtent_of_count (readCount_digits hshort) hn

theorem trimmed_of_digits {text : Text} (h : text.all Text.isAsciiDigit = true) :
    text.Trimmed ∧ ':' ∉ text := by
  have hdigit := List.all_eq_true.mp h
  exact ⟨Text.trimmed_of_visible fun c hc =>
    Token.visible_of_wordChar (Token.wordChar_of_digit (hdigit c hc)),
    fun hmem => absurd (hdigit _ hmem) (by decide)⟩

theorem trimmed_digits (n : Nat) :
    (Numeral.digits .dec n).Trimmed ∧ ':' ∉ Numeral.digits .dec n :=
  trimmed_of_digits (List.all_eq_true.mpr fun _ hc => Numeral.isAsciiDigit_digits hc)

theorem readExtent_indicator {n : Nat} (hshort : n < 10 ^ Numeral.mostDecimals) :
    readExtent ('~' :: Numeral.digits .dec n) = .ok (.indicator n) := by
  have htilde : Text.isAsciiDigit '~' = false := rfl
  rw [readExtent, if_neg (by rw [htilde]; exact Bool.false_ne_true), (trimmed_digits n).1.trim_eq,
    readCount_digits hshort]
  rfl

/-- References as a segment has them. -/
theorem mem_readRefs {segment ref : Text} (h : ref ∈ readRefs segment) :
    ref ≠ [] ∧ ref.Trimmed ∧ ',' ∉ ref ∧ ref <:+: segment := by
  obtain ⟨hmem, hne⟩ := List.mem_filter.mp h
  obtain ⟨piece, hpiece, rfl⟩ := List.mem_map.mp hmem
  obtain ⟨hcomma, hinfix⟩ := Text.mem_splitOn hpiece
  have htrim := Text.isInfix_trim piece
  exact ⟨of_decide_eq_true hne, Text.trimmed_trim piece, fun hc => hcomma (htrim.subset hc),
    htrim.trans hinfix⟩

theorem readRefs_joinWith {refs : List Text}
    (h : ∀ ref ∈ refs, ref ≠ [] ∧ ref.Trimmed ∧ ',' ∉ ref) :
    readRefs (Text.joinWith [','] refs) = refs := by
  rcases eq_or_ne refs [] with rfl | hne
  · rfl
  · have htrim : refs.map Text.trim = refs := by
      refine (List.map_congr_left fun ref href => ?_).trans (List.map_id refs)
      exact (h ref href).2.1.trim_eq
    rw [readRefs, Text.splitOn_joinWith hne fun ref href => (h ref href).2.2, htrim,
      List.filter_eq_self]
    exact fun ref href => decide_eq_true (h ref href).1

/-- The comment of a segment, as it is written again. -/
theorem comment_segment {segment : Text} (h : segment.Trimmed) :
    let comment := (nonempty? (Text.replacePair '\\' 'n' ['\n'] segment)).getD []
    let written := Text.replaceChar '\n' ['\\', 'n'] comment
    written.Trimmed ∧
      nonempty? (Text.replacePair '\\' 'n' ['\n'] written) =
        nonempty? (Text.replacePair '\\' 'n' ['\n'] segment) := by
  intro comment written
  have hcomment : comment = Text.replacePair '\\' 'n' ['\n'] segment := by
    show (nonempty? _).getD [] = _
    rw [nonempty?]
    split
    · next hnil => rw [hnil]; rfl
    · rfl
  obtain ⟨hhead, hlast⟩ := Text.ends_replacePair '\\' 'n' '\n' segment
  have hpair : ¬ ['\\', 'n'] <:+: Text.replacePair '\\' 'n' ['\n'] segment :=
    Text.not_infix_replacePair (by decide) (by decide) segment
  rw [← hcomment] at hhead hlast hpair ⊢
  refine ⟨Text.trimmed_replaceChar (by decide) (by decide) (fun c hc => ?_) (fun c hc => ?_), ?_⟩
  · rcases hhead with heq | heq
    · exact Or.inr (h.front c (heq ▸ hc))
    · exact Or.inl (Option.some.inj (hc.symm.trans heq))
  · rcases hlast with heq | heq
    · exact Or.inr (h.back c (heq ▸ hc))
    · exact Or.inl (Option.some.inj (hc.symm.trans heq))
  · rw [Text.replacePair_replaceChar (by decide) (by decide) hpair]

/-- The width segment of a field with bits. -/
theorem bits_segment {field : Field} {count : Nat} (hne : count ≠ 0)
    (hshort : count < 10 ^ Numeral.mostDecimals) (hwidth : field.width = count) :
    (field.describeExtent.Trimmed ∧ ':' ∉ field.describeExtent) ∧
      readExtent field.describeExtent = .ok (.bits count) := by
  have hbits : field.isIndicator = false := by
    rw [isIndicator, hwidth]
    exact decide_eq_false (by omega)
  rw [describeExtent, hbits, hwidth, Numeral.decimal_natCast]
  by_cases hone : count = 1
  · subst hone
    exact ⟨⟨Text.trimmed_nil, List.not_mem_nil⟩, rfl⟩
  · have hcast : ¬ (count : Int) = 1 := by omega
    simp only [Bool.false_eq_true, if_false, if_neg hcast]
    exact ⟨trimmed_digits count, readExtent_digits hshort hne⟩

/-- The width segment of an indicator. -/
theorem indicator_segment {field : Field} {index : Nat}
    (hshort : index < 10 ^ Numeral.mostDecimals) (hwidth : field.width = 0)
    (hindex : field.index = some (index : Int)) :
    (field.describeExtent.Trimmed ∧ ':' ∉ field.describeExtent) ∧
      readExtent field.describeExtent = .ok (.indicator index) := by
  have hindicator : field.isIndicator = true := by
    rw [isIndicator, hwidth]
    rfl
  have htext : field.describeExtent = '~' :: Numeral.digits .dec index := by
    rw [describeExtent, if_pos hindicator, hindex]
    exact congrArg (List.cons '~') (Numeral.decimal_natCast index)
  obtain ⟨htrimmed, hcolon⟩ := trimmed_digits index
  rw [htext]
  refine ⟨⟨⟨fun c hc => ?_, fun c hc => ?_⟩, fun hmem => ?_⟩, readExtent_indicator hshort⟩
  · obtain rfl : '~' = c := Option.some.inj hc
    decide
  · have hne : Numeral.digits .dec index ≠ [] := Nat.toDigits_ne_nil
    rw [List.getLast?_cons_of_ne_nil hne] at hc
    exact htrimmed.back c hc
  · rcases List.mem_cons.mp hmem with heq | hmem
    · exact absurd heq (by decide)
    · exact hcolon hmem

theorem getD_nonempty? (text : Text) : (nonempty? text).getD [] = text := by
  rw [nonempty?]
  split
  · next hnil => exact hnil.symm
  · rfl

/-- Segments that are read as a field are written as segments of the same field. -/
theorem segments_field {segments : Segments} (hclean : segments.Clean) {extent : Extent}
    (hextent : readExtent segments.width = .ok extent) {field : Field}
    (hfield : segments.field extent = field) :
    field.segments.Clean ∧ readExtent field.segments.width = .ok extent ∧
      field.segments.field extent = field := by
  have hshort := readExtent_lt hextent
  have hwritten : (field.describeExtent.Trimmed ∧ ':' ∉ field.describeExtent) ∧
      readExtent field.describeExtent = .ok extent := by
    subst hfield
    cases extent with
    | bits count =>
      have hpos := readExtent_bits hextent
      exact bits_segment (by omega) hshort rfl
    | indicator index => exact indicator_segment hshort rfl rfl
  have hrefs : ∀ ref ∈ field.enumRefs,
      ref ≠ [] ∧ ref.Trimmed ∧ ',' ∉ ref ∧ ref <:+: segments.refs := by
    subst hfield
    exact fun ref href => mem_readRefs href
  obtain ⟨hcomment, hcommentAgain⟩ := comment_segment hclean.comment
  have hcolor : field.color.getD [] = segments.color := by
    subst hfield
    exact getD_nonempty? segments.color
  have hrefsAgain : readRefs (Text.joinWith [','] field.enumRefs) = field.enumRefs :=
    readRefs_joinWith fun ref href =>
      ⟨(hrefs ref href).1, (hrefs ref href).2.1, (hrefs ref href).2.2.1⟩
  refine ⟨⟨?_, hwritten.1, ?_, ⟨?_, fun hmem => ?_⟩, ?_⟩, hwritten.2, ?_⟩
  · subst hfield
    exact hclean.name
  · show (field.color.getD []).Trimmed ∧ ':' ∉ field.color.getD []
    rw [hcolor]
    exact hclean.color
  · exact Text.trimmed_joinWith (by decide) fun ref href => (hrefs ref href).2.1
  · rcases Text.mem_joinWith hmem with heq | ⟨ref, href, hmem⟩
    · exact absurd heq (by decide)
    · exact hclean.refs.2 ((hrefs ref href).2.2.2.subset hmem)
  · subst hfield
    exact hcomment
  · subst hfield
    exact Field.mk.injEq .. |>.mpr
      ⟨rfl, rfl, rfl, congrArg nonempty? hcolor, hrefsAgain, hcommentAgain, rfl⟩

theorem ofContent_text {segments : Segments} (hclean : segments.Clean) {extent : Extent}
    (hextent : readExtent segments.width = .ok extent) :
    ofContent segments.text = .ok (segments.field extent) := by
  refine ofContent_eq_ok_iff.mpr ⟨extent, ?_, ?_⟩
  · rw [Segments.ofLine_text hclean]
    exact hextent
  · rw [Segments.ofLine_text hclean]

/-- **Fields are read back** from the line that they are written on. -/
theorem ofContent_describe {line : Text} {field : Field} (h : ofContent line = .ok field) :
    ofContent field.describe = .ok field := by
  obtain ⟨extent, hextent, hfield⟩ := ofContent_eq_ok_iff.mp h
  obtain ⟨hclean, hwidth, hagain⟩ := segments_field (Segments.clean_ofLine line) hextent hfield
  rw [describe_eq, ofContent_text hclean hwidth, hagain]

theorem trimmed_describe {line : Text} {field : Field} (h : ofContent line = .ok field) :
    field.describe.Trimmed := by
  obtain ⟨extent, hextent, hfield⟩ := ofContent_eq_ok_iff.mp h
  exact (segments_field (Segments.clean_ofLine line) hextent hfield).1.trimmed_text

theorem describe?_eq_some_iff {field : Field} {line : Text} :
    field.describe? = some line ↔
      (∀ n, field.toldNumber? = some n → n.natAbs < 10 ^ Numeral.mostDecimals) ∧
        field.describe = line := by
  have hlong : field.toldNumber?.any (Numeral.Long .dec ·) = true ↔
      ∃ n, field.toldNumber? = some n ∧ Numeral.Long .dec n := by
    cases field.toldNumber? <;> simp
  unfold describe?
  split
  · next h =>
    obtain ⟨n, hn, hdigits⟩ := hlong.mp h
    exact iff_of_false nofun fun hshort =>
      absurd (hshort.1 n hn) (Nat.not_lt.mpr (Numeral.long_dec_iff.mp hdigits))
  · next h =>
    rw [Option.some.injEq, iff_and_self]
    exact fun _ n hn => Nat.lt_of_not_le fun hle =>
      h (hlong.mpr ⟨n, hn, Numeral.long_dec_iff.mpr hle⟩)

/-- A field that is read can be written. -/
theorem describe?_of_ofContent {line : Text} {field : Field} (h : ofContent line = .ok field) :
    field.describe? = some field.describe := by
  obtain ⟨extent, hextent, rfl⟩ := ofContent_eq_ok_iff.mp h
  have hshort := readExtent_lt hextent
  refine describe?_eq_some_iff.mpr ⟨fun n hn => ?_, rfl⟩
  suffices hnumber : n = extent.number by
    rw [hnumber, Int.natAbs_natCast]
    exact hshort
  cases extent with
  | bits count =>
    have hpos := readExtent_bits hextent
    have hbits : ((Segments.ofLine line).field (.bits count)).isIndicator = false :=
      decide_eq_false (by show ¬ (count : Int) = 0; omega)
    rw [toldNumber?, hbits] at hn
    simp only [Bool.false_eq_true, if_false] at hn
    split at hn
    · cases hn
    · exact (Option.some.inj hn).symm
  | indicator index => exact (Option.some.inj hn).symm

end Field

end BitLayout
