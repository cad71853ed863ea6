import BitLayout.Proofs.Cursor.Lossless
import BitLayout.Proofs.Enumeration.Offset
import BitLayout.Proofs.Layout.Declared
import BitLayout.Proofs.Numeral.RoundTrip
import BitLayout.Proofs.Text.Joined

/-!
# Where a description goes wrong

An error of a description tells where the item stands that cannot be read,
and an error in an enumeration tells its own place as well. All of these are
positions of the text as it was given: it is not changed by reading, and
what is trimmed away stands at its end. The one exception is an enumeration
that breaks off (`Enumeration.BreaksOff`).

The items before the one that fails are a path that the reader takes
(`Leads`), at the end of which it reads one token more and fails. Where an
item ends is told by a step (`readItem_stops`): a macro and a field end with
their line, and only an enumeration may leave the rest of a line to others.
So the place of a bad field is its first token, and what stands before that
on its line, and on the lines that it was continued from, is a gap
(`badLine_of_leads`).
-/

namespace BitLayout

namespace DocumentError

/-- The position that is told about an error, where the item begins. -/
def start : DocumentError → Nat
  | .badDefine start => start
  | .badDefineValue _ start _ => start
  | .badEnumeration start _ => start
  | .badField start _ => start

theorem exists_message (e : DocumentError) :
    ∃ front back, e.message = front ++ " at " ++ toString e.start ++ back := by
  unfold message
  cases e with
  | badDefine start =>
    exact ⟨"Cannot parse C macro as a numeric define", "", String.append_empty.symm⟩
  | badDefineValue name start error => exact ⟨_, _, String.append_assoc⟩
  | badEnumeration start error => exact ⟨"Cannot parse an enum", _, String.append_assoc⟩
  | badField start line => exact ⟨"Cannot parse a field description", _, String.append_assoc⟩

end DocumentError

namespace Document

/-! ## The items before an error -/

/-- Items that are read one after the other, from a cursor to another. -/
inductive Leads : Cursor → List Item → Cursor → Prop
  | here (cursor : Cursor) : Leads cursor [] cursor
  | item {cursor behind later last : Cursor} {token : Token} {item : Item} {items : List Item}
      (first : cursor.next = (some token, behind)) (reads : readItem token behind = .ok (item, later))
      (others : Leads later items last) : Leads cursor (item :: items) last

theorem exists_leads {cursor : Cursor} {failure : Failure DocumentError}
    (h : readItems cursor = .error failure) :
    ∃ items last token behind, Leads cursor items last ∧ last.next = (some token, behind) ∧
      readItem token behind = .error failure := by
  fun_induction readItems cursor with
  | case1 => cases h
  | case2 cursor token behind hnext error hitem =>
    cases h
    exact ⟨[], cursor, token, behind, .here cursor, hnext, hitem⟩
  | case3 cursor token behind hnext item later hitem _ ih =>
    cases hothers : readItems later with
    | ok items =>
      rw [hothers] at h
      cases h
    | error error =>
      rw [hothers] at h
      cases h
      obtain ⟨items, last, found, front, hleads, hfound, hfails⟩ := ih hothers
      exact ⟨item :: items, last, found, front, .item hnext hitem hleads, hfound, hfails⟩

theorem buffer_of_item {cursor behind later : Cursor} {token : Token} {item : Item}
    (first : cursor.next = (some token, behind)) (reads : readItem token behind = .ok (item, later)) :
    later.buffer = cursor.buffer := by
  have hbehind := Cursor.next_buffer cursor
  rw [first] at hbehind
  exact (readItem_buffer reads).trans hbehind

theorem Leads.buffer_eq {cursor last : Cursor} {items : List Item} (h : Leads cursor items last) :
    last.buffer = cursor.buffer := by
  induction h with
  | here => rfl
  | item first reads _ ih => exact ih.trans (buffer_of_item first reads)

/-- Behind some items a line begins: at the start of the text, behind the end of another line, or
where an enumeration has left the rest of its line. -/
def LineStart (text : Text) (items : List Item) (pos : Nat) : Prop :=
  (items = [] ∧ pos = 0) ∨
  (∃ names members, items.getLast? = some (.enumeration names members)) ∨
  ∃ feed, text.EndsLine feed ∧ pos = feed + 1

theorem split_stops {cursor : Cursor} (h : (cursor.split ['\n']).2.ended = false) :
    ∃ feed, (cursor.split ['\n']).2.buffer.EndsLine feed ∧
      (cursor.split ['\n']).2.pos = feed + 1 := by
  rcases cursor.split_endsLine.1 with hlast | ⟨feed, hfeed, hnext⟩
  · rw [hlast] at h
    cases h
  · rw [hnext]
    exact ⟨feed, hfeed, rfl⟩

theorem readField_stops {start : Nat} {cursor later : Cursor} {item : Item}
    (h : readField start cursor = .ok (item, later)) : later = (cursor.split ['\n']).2 := by
  simp only [readField] at h
  split at h
  · cases h
  · split at h <;> cases h <;> rfl

/-- **Where an item ends**, if something comes behind it. -/
theorem readItem_stops {token : Token} {cursor later : Cursor} {item : Item}
    (h : readItem token cursor = .ok (item, later)) (hended : later.ended = false) :
    (∃ names members, item = .enumeration names members) ∨
    ∃ feed, later.buffer.EndsLine feed ∧ later.pos = feed + 1 := by
  rcases readItem_cases h with ⟨_, _, front, -, rfl⟩ | henumeration | hfield
  · exact Or.inr (split_stops hended)
  · exact Or.inl henumeration
  · obtain rfl := readField_stops hfield
    exact Or.inr (split_stops hended)

theorem Leads.last_stops {cursor last : Cursor} {items : List Item} (h : Leads cursor items last)
    (hended : last.ended = false) :
    (items = [] ∧ last = cursor) ∨
    (∃ names members, items.getLast? = some (.enumeration names members)) ∨
    ∃ feed, cursor.buffer.EndsLine feed ∧ last.pos = feed + 1 := by
  induction h with
  | here => exact Or.inl ⟨rfl, rfl⟩
  | @item cursor behind later last token item items first reads others ih =>
    have hbuffer := buffer_of_item first reads
    refine Or.inr ?_
    rcases ih hended with ⟨rfl, rfl⟩ | ⟨names, members, hlast⟩ | hfeed
    · refine (readItem_stops reads hended).imp ?_ ?_
      · rintro ⟨names, members, rfl⟩
        exact ⟨names, members, rfl⟩
      · rintro ⟨feed, hends, hpos⟩
        exact ⟨feed, hbuffer ▸ hends, hpos⟩
    · refine Or.inl ⟨names, members, ?_⟩
      rw [List.getLast?_cons, hlast]
      rfl
    · rw [hbuffer] at hfeed
      exact Or.inr hfeed

/-- **The reader is at the beginning of a line** whenever it comes to a further item. -/
theorem Leads.lineStart {text : Text} {items : List Item} {front : Cursor}
    (h : Leads (Cursor.ofText text) items front) (hended : front.ended = false) :
    LineStart text items front.pos := by
  rcases h.last_stops hended with ⟨rfl, rfl⟩ | hdefinition | ⟨feed, hfeed, hpos⟩
  · exact Or.inl ⟨rfl, rfl⟩
  · exact Or.inr (Or.inl hdefinition)
  · have hwhole := Text.endsLine_iff_of_isPrefix (Text.trimRight_isPrefix text) hfeed.lt_length
    exact Or.inr (Or.inr ⟨feed, hwhole.mp hfeed, hpos⟩)

/-! ## What an item fails with -/

/-- The errors of an item, behind its first token. -/
inductive Fails (token : Token) (behind : Cursor) : DocumentError → Prop
  | define : Fails token behind (.badDefine behind.pos)
  | value (name : Text) (error : NumeralError) :
      Fails token behind (.badDefineValue name behind.pos error)
  | typedef {error : EnumError} {later : Cursor}
      (reads : Enumeration.read behind = (.error (.refused error), later)) :
      Fails token behind (.badEnumeration behind.pos error)
  | enumeration {error : EnumError} {later : Cursor} (begins : token.text = Enumeration.keyword)
      (reads : Enumeration.readBody behind = (.error (.refused error), later)) :
      Fails token behind (.badEnumeration token.offset error)
  | field {stop : Nat} (begins : token.text ∉ Field.directives)
      (ends : (behind.split ['\n']).1 = stop)
      (reads : Field.ofContent (Text.joined ((behind.buffer.take stop).drop token.offset)) =
        .error (.refused ())) :
      Fails token behind
        (.badField token.offset (Text.joined ((behind.buffer.take stop).drop token.offset)))

theorem fails_of_readItem {token : Token} {behind : Cursor} {e : DocumentError}
    (h : readItem token behind = .error (.refused e)) : Fails token behind e := by
  unfold readItem at h
  split at h
  · simp only [readDefine] at h
    split at h
    · next name _ _ =>
      split at h
      · cases h
      · next failure _ =>
        cases failure with
        | refused error =>
          cases h
          exact .value name error
        | tooLong => cases h
    · cases h
      exact .define
  · split at h
    · unfold readTypedef at h
      split at h
      · cases h
      · next failure _ hread =>
        cases failure with
        | refused error =>
          cases h
          exact .typedef hread
        | tooLong => cases h
    · split at h
      · next hkeyword =>
        unfold readEnumeration at h
        split at h
        · cases h
        · next failure _ hread =>
          cases failure with
          | refused error =>
            cases h
            exact .enumeration hkeyword hread
          | tooLong => cases h
      · next hmark htypedef hkeyword =>
        have hbegins : token.text ∉ Field.directives := by
          simp only [Field.directives, List.mem_cons, List.not_mem_nil, or_false, not_or]
          exact ⟨hmark, hkeyword, htypedef⟩
        simp only [readField] at h
        split at h
        · next failure hunread =>
          cases failure with
          | refused =>
            cases h
            rw [Cursor.slice_natCast] at hunread ⊢
            exact .field hbegins rfl hunread
          | tooLong => cases h
        · split at h <;> cases h

/-! ## The line of a bad field

A cursor reads a text without the white space at its end. What it finds is in the whole text as
well, at the same place. -/

section

variable {cursor later : Cursor} {text : Text} {token : Token}

theorem found_of_next (hfront : cursor.buffer <+: text)
    (hnext : cursor.next = (some token, later)) :
    token.text <+: text.drop token.offset ∧
      Token.Gap ((text.take token.offset).drop cursor.pos) := by
  obtain ⟨gap, rest, hdrop, hgap, -, hoffset, -⟩ := Cursor.tile_of_next hnext
  have hle : token.offset ≤ cursor.buffer.length := Nat.le_of_lt (Cursor.offset_lt_of_next hnext)
  obtain ⟨white, rfl⟩ := hfront
  constructor
  · have hword : cursor.buffer.drop token.offset = token.text ++ rest := by
      rw [hoffset]
      exact Token.drop_piece hdrop
    rw [List.drop_append_of_le_length hle, hword, List.append_assoc]
    exact List.prefix_append token.text _
  · rw [List.take_append_of_le_length hle, hoffset, List.drop_take, hdrop,
      Nat.add_sub_cancel_left, List.take_left]
    exact hgap

theorem line_of_split (hfront : cursor.buffer <+: text) {stop : Nat}
    (hstop : (cursor.split ['\n']).1 = stop) :
    stop ≤ cursor.buffer.length ∧ (text.EndsLine stop ∨ stop = cursor.buffer.length) ∧
      Cursor.SameLine text cursor.pos stop := by
  obtain ⟨hends, hsame⟩ := cursor.split_endsLine
  rw [hstop] at hsame
  have hinside : stop = cursor.buffer.length ∨ cursor.buffer.EndsLine stop := by
    rcases hends with hlast | ⟨feed, hfeed, hsplit⟩
    · rw [hlast] at hstop
      exact Or.inl hstop.symm
    · rw [hsplit] at hstop
      exact Or.inr (hstop ▸ hfeed)
  have hle : stop ≤ cursor.buffer.length := by
    rcases hinside with rfl | hfeed
    · exact Nat.le_refl _
    · exact Nat.le_of_lt hfeed.lt_length
  refine ⟨hle, hinside.symm.imp_left fun hfeed => ?_, fun n hn hlt hfeed => ?_⟩
  · exact (Text.endsLine_iff_of_isPrefix hfront hfeed.lt_length).mp hfeed
  · have hlength : n < cursor.buffer.length := Nat.lt_of_lt_of_le hlt hle
    exact hsame n hn hlt ((Text.endsLine_iff_of_isPrefix hfront hlength).mpr hfeed)

end

/-- The line of a field that cannot be read, and its first token, as they stand in a text. -/
structure BadLine (text : Text) (start : Nat) (line : Text) (items : List Item) (front : Cursor)
    (token : Token) (stop : Nat) : Prop where
  /-- The items before it are read, and behind them a line begins. -/
  reads : Leads (Cursor.ofText text) items front
  begins : LineStart text items front.pos
  /-- The first token there is the one at the start, with a gap before it. -/
  first : front.next = (some token, front.seek token.stop)
  offset : token.offset = start
  word : token.text <+: text.drop start
  gap : front.pos ≤ start ∧ Token.Gap ((text.take start).drop front.pos)
  /-- The line ends with the first line feed that ends one. Behind the last line only white space
  is left. -/
  ends : stop ≤ text.length ∧ (text.EndsLine stop ∨ stop = (Text.trimRight text).length)
  oneLine : Cursor.SameLine text token.stop stop
  cut : line = Text.joined ((text.take stop).drop start)
  /-- It is the line of a field, and none that can be read. -/
  field : token.text ∉ Field.directives
  unread : Field.ofContent line = .error (.refused ())

theorem badLine_of_leads {text : Text} {items : List Item} {front behind : Cursor} {token : Token}
    {stop : Nat} (hleads : Leads (Cursor.ofText text) items front)
    (hnext : front.next = (some token, behind)) (hbegins : token.text ∉ Field.directives)
    (hstop : (behind.split ['\n']).1 = stop)
    (hunread :
      Field.ofContent (Text.joined ((behind.buffer.take stop).drop token.offset)) =
        .error (.refused ())) :
    BadLine text token.offset (Text.joined ((behind.buffer.take stop).drop token.offset)) items
      front token stop := by
  have hended := Cursor.ended_of_next hnext
  obtain ⟨hle, -, -, rfl⟩ := Cursor.bounds_next hnext
  have hbuffer : front.buffer = Text.trimRight text := hleads.buffer_eq
  have hfront : front.buffer <+: text := hbuffer ▸ Text.trimRight_isPrefix text
  obtain ⟨hword, hgap⟩ := found_of_next hfront hnext
  have hseek : (front.seek token.stop).buffer <+: text := hfront
  obtain ⟨hstopLe, hends, honeLine⟩ : stop ≤ front.buffer.length ∧
      (text.EndsLine stop ∨ stop = front.buffer.length) ∧
      Cursor.SameLine text token.stop stop := line_of_split hseek hstop
  have htake : text.take stop = front.buffer.take stop := by
    obtain ⟨white, hwhite⟩ := hfront
    rw [← hwhite, List.take_append_of_le_length hstopLe]
  exact
    { reads := hleads
      begins := hleads.lineStart hended
      first := hnext
      offset := rfl
      word := hword
      gap := ⟨hle, hgap⟩
      ends := ⟨Nat.le_trans hstopLe hfront.length_le, hbuffer ▸ hends⟩
      oneLine := honeLine
      cut := by rw [htake]; rfl
      field := hbegins
      unread := hunread }

/-! ## Places of errors -/

/-- Where an error of a description is found. -/
structure Placed (text : Text) (e : DocumentError) : Prop where
  /-- The message tells the position, which is one of the text. -/
  told : ∃ front back, e.message = front ++ " at " ++ toString e.start ++ back
  inside : e.start ≤ text.length
  /-- An error in an enumeration is told as well, and is that of reading from the position. -/
  enumeration : ∀ start inner, e = .badEnumeration start inner →
    (∃ front, e.message = front ++ inner.message) ∧
    Enumeration.PlacedIn text.length ((Cursor.ofText text).seek start).row inner
  /-- A bad field is found where the first token of its line stands. -/
  field : ∀ start line, e = .badField start line →
    ∃ items front token stop, BadLine text start line items front token stop

theorem message_badEnumeration (start : Nat) (inner : EnumError) :
    ∃ front, (DocumentError.badEnumeration start inner).message = front ++ inner.message := by
  unfold DocumentError.message
  exact ⟨_, rfl⟩

theorem placedIn_seek {text : Text} {start : Nat} {later : Cursor} {e : EnumError}
    (hstart : start ≤ (Text.trimRight text).length)
    (hread : Enumeration.read ((Cursor.ofText text).seek start) = (.error (.refused e), later)) :
    Enumeration.PlacedIn text.length ((Cursor.ofText text).seek start).row e :=
  have hinside : ((Cursor.ofText text).seek start).Inside := hstart
  (Enumeration.placed_of_read hinside hread).mono (Text.trimRight_isPrefix text).length_le

theorem placed_of_leads {text : Text} {items : List Item} {front behind : Cursor} {token : Token}
    {e : DocumentError} (hleads : Leads (Cursor.ofText text) items front)
    (hnext : front.next = (some token, behind)) (hfails : readItem token behind = .error (.refused e)) :
    Placed text e := by
  have hbuffer : front.buffer = Text.trimRight text := hleads.buffer_eq
  obtain ⟨-, hlt, hstop, rfl⟩ := Cursor.bounds_next hnext
  rw [hbuffer] at hstop
  have hoffset : token.offset ≤ (Text.trimRight text).length := by omega
  have hseek : ∀ n, front.seek n = (Cursor.ofText text).seek n := by
    intro n
    rw [Cursor.seek, hbuffer, Cursor.ended_of_next hnext]
    rfl
  have hlength := (Text.trimRight_isPrefix text).length_le
  refine ⟨e.exists_message, ?_, ?_, ?_⟩
  · cases fails_of_readItem hfails with
    | define => exact Nat.le_trans hstop hlength
    | value name error => exact Nat.le_trans hstop hlength
    | typedef reads => exact Nat.le_trans hstop hlength
    | enumeration begins reads => exact Nat.le_trans hoffset hlength
    | field begins ends reads => exact Nat.le_trans hoffset hlength
  · intro start inner he
    subst he
    refine ⟨message_badEnumeration start inner, ?_⟩
    cases fails_of_readItem hfails with
    | typedef reads =>
      rw [hseek] at reads
      exact placedIn_seek hstop reads
    | enumeration begins reads =>
      rw [← Enumeration.read_of_keyword (Cursor.next_seek_offset hnext) begins, hseek] at reads
      exact placedIn_seek hoffset reads
  · intro start line he
    subst he
    cases fails_of_readItem hfails with
    | field begins ends reads =>
      exact ⟨_, _, _, _, badLine_of_leads hleads hnext begins ends reads⟩

/-- **Where a text goes wrong** is told as a place of the text, both for an enumeration and for a
description. Only an enumeration that breaks off has no place. -/
structure ErrorsPlaced (text : Text) : Prop where
  enumeration : ∀ e later, Enumeration.read (Cursor.ofText text) = (.error (.refused e), later) →
    Enumeration.PlacedIn text.length (Cursor.ofText text).row e
  description : ∀ e, Layout.ofText text = .error (.refused e) → Placed text e

theorem errorsPlaced_ofText (text : Text) : ErrorsPlaced text where
  enumeration e later hread := placedIn_seek (Nat.zero_le _) hread
  description e herror := by
    rw [Layout.ofText, map_eq_error_iff] at herror
    obtain ⟨items, front, token, behind, hleads, hnext, hfails⟩ := exists_leads herror
    exact placed_of_leads hleads hnext hfails

/-- A definition may break off behind the name of a member, and no place of the text is told for
that, neither by the enumeration nor by the description. -/
theorem errorsPlaced_ofText_brokenOff :
    (Enumeration.read (Cursor.ofText "enum \x7b A".toList)).1 =
        .error (.refused (.badSeparator (-1) [] ['A'])) ∧
      Layout.ofText "enum \x7b A".toList =
        .error (.refused (.badEnumeration 0 (.badSeparator (-1) [] ['A']))) ∧
      (EnumError.badSeparator (-1) [] ['A']).message =
        "Unexpected '' after enum member 'A' at -1" ∧
      ¬ (EnumError.badSeparator (-1) [] ['A']).Inside "enum \x7b A".length := by
  refine ⟨by decide +kernel, by decide +kernel, by decide +kernel, ?_⟩
  intro hinside
  exact absurd hinside.1 (by decide)

example :
    Layout.ofText "#define A \\\n 1\n/* x\n */ bad:x".toList =
      .error (.refused (.badField 24 "bad:x".toList)) := by
  decide +kernel

end Document

end BitLayout
