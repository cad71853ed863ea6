import BitLayout.Proofs.Cursor.Inside
import BitLayout.Proofs.Enumeration.Whole

/-!
# Where an enumeration goes wrong

An error tells a position, most often the one of a token, and such a
position lies inside the text. The end of the input has no position of its
own, and where it is found instead of a token, the error tells minus one.
That can happen at two places only: in front of the opening brace, and
behind the name of a member, where the reader looks for what comes next
(`BreaksOff`). Behind an equals sign the position of the cursor is told
instead, and at the place of a member the end of the input is no error.

Each reader either tells a position inside or has come to one of the two
places; the row of tokens that it has read by then is put together on the
way up, the loop over the members by induction (`offset_readMembers`). In
the other direction the grammar of members leads the loop to the last name
(`readMembers_append`). So the rows that break off are exactly those whose
error has no place in the text (`placed_of_read`).
-/

namespace BitLayout

namespace EnumError

/-- The position that is told about an error. -/
def offset : EnumError → Int
  | .noKeyword pos => pos
  | .noBrace offset _ => offset
  | .noMember offset _ => offset
  | .badSeparator offset _ _ => offset
  | .noNumber pos _ => pos
  | .badNumber offset _ => offset

theorem exists_message (e : EnumError) :
    ∃ front back, e.message = front ++ " at " ++ toString e.offset ++ back := by
  unfold message
  cases e with
  | noKeyword pos => exact ⟨"Expected \"enum\"", "", String.append_empty.symm⟩
  | noBrace offset found => exact ⟨"Expected \"\x7b\"", _, String.append_assoc⟩
  | noMember offset found => exact ⟨"Expected an enum member", _, String.append_assoc⟩
  | badSeparator offset found member =>
    refine ⟨s!"Unexpected {String.ofList (Text.quoted found)} after enum member " ++
      String.ofList (Text.quoted member), "", ?_⟩
    simp only [String.append_empty, String.append_assoc]
    rfl
  | noNumber pos found => exact ⟨"Expected a number after \"=\"", _, String.append_assoc⟩
  | badNumber offset error => exact ⟨"Bad enum value", _, String.append_assoc⟩

/-- The position is one of a text of so many characters, or its end. -/
def Inside (length : Nat) (e : EnumError) : Prop :=
  0 ≤ e.offset ∧ e.offset ≤ length

end EnumError

namespace Enumeration

/-! ## Rows that break off -/

/-- Members, the last of which is a name with nothing behind it. -/
def EndsInName (row : List Token) : Prop :=
  ∃ inner members last name, row = inner ++ [last] ∧ MemberTokens inner members ∧
    memberName? (some last) = some name

/-- A definition that ends in front of its opening brace, or behind the name of a member. -/
inductive BreaksOff : List Token → Prop
  | keyword {word : Token} (begins : word.text = Enumeration.keyword) : BreaksOff [word]
  | tag {word tag : Token} (begins : word.text = Enumeration.keyword)
      (kind : tag.kind = .identifier) : BreaksOff [word, tag]
  | name {opening inside : List Token} {tag : Option Text} (opens : OpeningTokens opening tag)
      (ends : EndsInName inside) : BreaksOff (opening ++ inside)

/-! ## Errors of the readers -/

theorem inside_readNumber {cursor later : Cursor} {e : EnumError} (h : cursor.Inside)
    (hread : readNumber cursor = (.error (.refused e), later)) : e.Inside cursor.buffer.length := by
  have hinside := (h.want (.text ['-'])).next
  have hbuffer := Cursor.next_buffer (cursor.want (.text ['-'])).2
  rw [Cursor.want_buffer] at hbuffer
  simp only [readNumber] at hread
  split at hread
  · next text offset behind hnext =>
    have hlt := Cursor.offset_lt_of_next hnext
    rw [Cursor.want_buffer] at hlt
    split at hread
    · cases hread
    · next failure _ =>
      cases failure with
      | refused error =>
        cases hread
        exact ⟨Int.natCast_nonneg offset, Int.ofNat_le.mpr (Nat.le_of_lt hlt)⟩
      | tooLong => cases hread
  · next found behind _ hnext =>
    cases hread
    rw [hnext] at hinside hbuffer
    rw [Cursor.Inside, hbuffer] at hinside
    exact ⟨Int.natCast_nonneg _, Int.ofNat_le.mpr hinside⟩

/-- The place of a token is inside the text it was read from. -/
theorem offset_inside {cursor later : Cursor} {token : Token}
    (h : cursor.next = (some token, later)) :
    0 ≤ (token.offset : Int) ∧ (token.offset : Int) ≤ cursor.buffer.length :=
  ⟨Int.natCast_nonneg _, Int.ofNat_le.mpr (Nat.le_of_lt (Cursor.offset_lt_of_next h))⟩

theorem offset_readMemberEnd {cursor later : Cursor} {name : Text} {e : EnumError}
    (h : readMemberEnd name cursor = (.error (.refused e), later)) :
    e.Inside cursor.buffer.length ∨ cursor.row = [] ∧ e.offset = -1 := by
  unfold readMemberEnd at h
  split at h
  · next hnext =>
    cases h
    exact Or.inr ⟨Cursor.row_of_next_none hnext, rfl⟩
  · next token behind hnext =>
    refine Or.inl ?_
    split at h
    · cases h
    · split at h
      · rcases hnumber : readNumber behind with ⟨error | n, last⟩
        · rw [hnumber] at h
          cases h
          have hinside := inside_readNumber (Cursor.inside_of_next hnext) hnumber
          have hbuffer := Cursor.next_buffer cursor
          rw [hnext] at hbuffer
          rwa [hbuffer] at hinside
        · rw [hnumber] at h
          cases h
      · cases h
        exact offset_inside hnext

theorem offset_readMember {cursor later : Cursor} {e : EnumError}
    (h : readMember cursor = (.error (.refused e), later)) :
    e.Inside cursor.buffer.length ∨ EndsInName cursor.row ∧ e.offset = -1 := by
  obtain ⟨commas, hcommas, hrow, -⟩ := row_exhaust_commas cursor
  have hbuffer := Cursor.exhaust_buffer (.text [',']) cursor
  obtain ⟨hflag, hleft⟩ := Cursor.exhaust_row (.text [',']) cursor
  unfold readMember at h
  split at h
  · cases h
  · next front hexhaust =>
    rw [hexhaust] at hrow hbuffer hflag hleft
    dsimp only at h hrow hbuffer hflag hleft
    rcases hnext : front.next with ⟨_ | token, behind⟩
    · rw [← hleft, Cursor.row_of_next_none hnext] at hflag
      cases hflag
    · rw [hnext] at h
      have hfront := Cursor.next_buffer front
      rw [hnext, hbuffer] at hfront
      split at h
      · cases h
      · split at h
        · next name hname =>
          rw [← hfront]
          refine (offset_readMemberEnd h).imp_right (And.imp_left fun hend => ?_)
          have hlisted := MemberTokens.commas hcommas .nothing
          rw [List.append_nil] at hlisted
          refine ⟨commas, [], token, name, ?_, hlisted, hname⟩
          rw [hrow, Cursor.row_of_next_some hnext, hend]
        · cases h
          rw [← hbuffer]
          exact Or.inl (offset_inside hnext)

/-- **The loop over the members** tells a position inside, unless the last member is a name
that nothing follows. -/
theorem offset_readMembers {before : NameTable} {counter : Int} {cursor later : Cursor}
    {e : EnumError} (h : readMembers before counter cursor = (.error (.refused e), later)) :
    e.Inside cursor.buffer.length ∨ EndsInName cursor.row ∧ e.offset = -1 := by
  fun_induction readMembers before counter cursor with
  | case1 before counter cursor error last hmember =>
    cases h
    exact offset_readMember hmember
  | case2 => cases h
  | case3 before counter cursor name value? middle hmember _ value ih =>
    have hbuffer := readMember_buffer cursor
    rw [hmember] at hbuffer
    rw [← hbuffer]
    refine (ih h).imp_right (And.imp_left fun hends => ?_)
    obtain ⟨front, hrow, htokens, -⟩ := tokens_of_readMember_named hmember
    obtain ⟨inner, members, last, lastName, hmiddle, hlisted, hname⟩ := hends
    refine ⟨front ++ inner, _, last, lastName, ?_, htokens inner members hlisted, hname⟩
    rw [hrow, hmiddle, List.append_assoc]

theorem offset_readBody {cursor later : Cursor} {e : EnumError}
    (h : readBody cursor = (.error (.refused e), later)) :
    e.Inside cursor.buffer.length ∨
      (∀ word : Token, word.text = keyword → BreaksOff (word :: cursor.row)) ∧ e.offset = -1 := by
  have hbuffer := readTag_buffer cursor
  simp only [readBody] at h
  rcases hnext : (readTag cursor).2.next with ⟨_ | brace, inside⟩
  · rw [hnext] at h
    cases h
    refine Or.inr ⟨fun word hword => ?_, rfl⟩
    have hfront := Cursor.row_of_next_none hnext
    rcases tokens_of_readTag cursor with ⟨-, hstay⟩ | ⟨tag, hkind, -, hrow⟩
    · rw [hstay] at hfront
      rw [hfront]
      exact .keyword hword
    · rw [hrow, hfront]
      exact .tag hword hkind
  · rw [hnext] at h
    split at h
    · next hopens =>
      have hinside := Cursor.next_buffer (readTag cursor).2
      rw [hnext, hbuffer] at hinside
      rcases hmembers : readMembers ∅ 0 inside with ⟨error | all, last⟩
      · rw [hmembers] at h
        cases h
        rw [← hinside]
        refine (offset_readMembers hmembers).imp_right (And.imp_left fun hends => ?_)
        intro word hword
        obtain ⟨opening, -, hopening, hrow⟩ := opening_of_readTag hnext hopens
        rw [hrow, ← List.cons_append]
        exact .name (hopening word hword) hends
      · rw [hmembers] at h
        cases h
    · cases h
      rw [← hbuffer]
      exact Or.inl (offset_inside hnext)

theorem offset_read {cursor later : Cursor} {e : EnumError} (h : cursor.Inside)
    (hread : read cursor = (.error (.refused e), later)) :
    e.Inside cursor.buffer.length ∨ BreaksOff cursor.row ∧ e.offset = -1 := by
  rcases Cursor.want_cases (w := .text keyword) rfl cursor with
    ⟨word, body, hnext, haccepts, hwant⟩ | ⟨-, hwant⟩
  · have hword : word.text = keyword := eq_of_beq haccepts
    have hbuffer := Cursor.next_buffer cursor
    rw [hnext] at hbuffer
    rw [read_of_keyword hnext hword] at hread
    rw [← hbuffer]
    refine (offset_readBody hread).imp_right (And.imp_left fun hbreaks => ?_)
    rw [Cursor.row_of_next_some hnext]
    exact hbreaks word hword
  · rw [read, hwant] at hread
    cases hread
    exact Or.inl ⟨Int.natCast_nonneg _, Int.ofNat_le.mpr h⟩

/-! ## Errors of rows that break off -/

theorem readMembers_of_endsInName {cursor : Cursor} (h : EndsInName cursor.row)
    (before : NameTable) (counter : Int) :
    ∃ e later, readMembers before counter cursor = (.error (.refused e), later) ∧ e.offset = -1 := by
  obtain ⟨inner, members, last, name, hrow, hlisted, hname⟩ := h
  have hfollows : Follows inner [last] := Or.inl ⟨last, rfl, Or.inl (by rw [hname]; rfl)⟩
  obtain ⟨reached, front, hfront, hloop⟩ := readMembers_append hlisted hfollows hrow
  obtain ⟨behind, hnext, hbehind⟩ := Cursor.next_of_row_cons hfront
  obtain ⟨ended, hend, -⟩ := Cursor.next_of_row_nil hbehind
  have hmember : readMember front = (.error (.refused (.badSeparator (-1) [] name)), ended) := by
    rw [readMember_of_name hnext hname, readMemberEnd, hend]
    rfl
  exact ⟨_, ended, hloop.trans (readMembers_of_error hmember), rfl⟩

theorem readBody_of_no_brace {cursor front later : Cursor} {tag : Option Text}
    (htag : readTag cursor = (tag, front)) (hnext : front.next = (none, later)) :
    readBody cursor = (.error (.refused (.noBrace (-1) [])), later) := by
  simp only [readBody, htag, hnext]
  rfl

theorem readTag_of_none {cursor later : Cursor} (h : cursor.next = (none, later)) :
    readTag cursor = (none, cursor) := by
  have hwant : cursor.want (.kind (some .identifier)) = (none, cursor) := by
    simp [Cursor.want, h, Want.accepts]
  rw [readTag, hwant]

theorem read_of_breaksOff {cursor : Cursor} (h : BreaksOff cursor.row) :
    ∃ e later, read cursor = (.error (.refused e), later) ∧ e.offset = -1 := by
  generalize hrow : cursor.row = row at h
  cases h with
  | @keyword word begins =>
    obtain ⟨body, hword, hbody⟩ := Cursor.next_of_row_cons hrow
    obtain ⟨ended, hend, -⟩ := Cursor.next_of_row_nil hbody
    rw [read_of_keyword hword begins]
    exact ⟨_, ended, readBody_of_no_brace (readTag_of_none hend) hend, rfl⟩
  | @tag word tag begins kind =>
    obtain ⟨body, hword, hbody⟩ := Cursor.next_of_row_cons hrow
    obtain ⟨front, htag, hfront⟩ := Cursor.next_of_row_cons hbody
    obtain ⟨ended, hend, -⟩ := Cursor.next_of_row_nil hfront
    rw [read_of_keyword hword begins]
    exact ⟨_, ended, readBody_of_no_brace (readTag_of_identifier htag kind) hend, rfl⟩
  | @name opening inside tag opens ends =>
    obtain ⟨front, hfront, hread⟩ := read_of_opening opens hrow
    obtain ⟨e, later, hmembers, hoffset⟩ := readMembers_of_endsInName (hfront ▸ ends) ∅ 0
    refine ⟨e, later, ?_, hoffset⟩
    rw [hread, hmembers]
    rfl

/-! ## Places of errors -/

/-- Where an error is found that a definition with the tokens of a row gives, in a text of so
many characters. -/
structure PlacedIn (length : Nat) (row : List Token) (e : EnumError) : Prop where
  /-- The message tells the position. -/
  told : ∃ front back, e.message = front ++ " at " ++ toString e.offset ++ back
  inside : ¬ BreaksOff row → 0 ≤ e.offset ∧ e.offset ≤ length
  /-- There is no place for what is missing at the end of the input. -/
  missing : BreaksOff row → e.offset = -1

theorem PlacedIn.mono {length longer : Nat} {row : List Token} {e : EnumError}
    (h : PlacedIn length row e) (hle : length ≤ longer) : PlacedIn longer row e where
  told := h.told
  inside hwhole :=
    have hinside := h.inside hwhole
    ⟨hinside.1, hinside.2.trans (Int.ofNat_le.mpr hle)⟩
  missing := h.missing

/-- **An error is found inside the text**, unless the definition breaks off. -/
theorem placed_of_read {cursor later : Cursor} {e : EnumError} (h : cursor.Inside)
    (hread : read cursor = (.error (.refused e), later)) :
    PlacedIn cursor.buffer.length cursor.row e where
  told := e.exists_message
  inside hwhole := (offset_read h hread).resolve_right fun hbreaks => hwhole hbreaks.1
  missing hbreaks := by
    obtain ⟨other, last, hother, hoffset⟩ := read_of_breaksOff hbreaks
    cases hread.symm.trans hother
    exact hoffset

end Enumeration

end BitLayout
