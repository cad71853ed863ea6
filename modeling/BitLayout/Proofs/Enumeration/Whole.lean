import BitLayout.Proofs.Enumeration.Grammar

/-!
# Enumerations are read whole

The other direction of the grammar: every row of tokens that begins with a
definition is read as what the definition says (`read_of_definitionTokens`).
The induction on the tokens of its members leads the loop past them, whatever
comes behind (`readMembers_append`). At the end of the input the loop gives
the same answer as at a closing brace, so that serves the definitions that
are cut short too (`Ends`).

Both directions together say which rows are accepted (`accepts_iff`), and
that what is read is whole, where nothing is cut short (`read_whole`).
-/

namespace BitLayout

namespace Enumeration

/-! ## Definitions are read -/

theorem ne_of_memberName? {cursor later : Cursor} {token : Token} {name : Text} {c : Char}
    (h : cursor.next = (some token, later)) (hname : memberName? (some token) = some name)
    (hc : c ∈ Token.operators) : token.text ≠ [c] := by
  intro htext
  have hkind := Cursor.kind_of_operator h hc htext
  obtain ⟨kind, text, offset⟩ := token
  cases hkind
  cases hname

/-- A numeric token behind a minus sign or none, as it stands in the row. -/
theorem readNumber_of_row (sign : List Token) {cursor : Cursor} {rest : List Token} {token : Token}
    (hrow : cursor.row = sign ++ token :: rest) (kind : token.kind = .numeric)
    (hsign : sign = [] ∨ ∃ minus : Token, sign = [minus] ∧ minus.text = ['-']) :
    ∃ later, later.row = rest ∧ readNumber cursor =
      (((Numeral.read .dec token.text).map fun n => if sign = [] then n else -n).mapError
        (Failure.map (.badNumber token.offset)), later) := by
  obtain ⟨_, text, offset⟩ := token
  cases kind
  rcases hsign with rfl | ⟨minus, rfl, hminus⟩
  · obtain ⟨later, hnext, hlater⟩ := Cursor.next_of_row_cons hrow
    rcases Cursor.want_cases (w := .text ['-']) rfl cursor with
      ⟨minus, behind, hminus, haccepts, -⟩ | ⟨-, hwant⟩
    · cases hnext.symm.trans hminus
      cases Cursor.kind_of_operator hnext (by decide) (eq_of_beq haccepts)
    · have hnumeric : (cursor.want (.text ['-'])).2.next =
          (some ⟨.numeric, text, offset⟩, later) := by rw [hwant, hnext]
      refine ⟨later, hlater, ?_⟩
      rw [readNumber_of_numeric hnumeric, hwant]
      rfl
  · obtain ⟨middle, hfirst, hmiddle⟩ := Cursor.next_of_row_cons hrow
    obtain ⟨later, hnext, hlater⟩ := Cursor.next_of_row_cons hmiddle
    have hwant : cursor.want (.text ['-']) = (some (some minus), middle) := by
      simp [Cursor.want, hfirst, Want.accepts, Token.textOf, hminus]
    have hnumeric : (cursor.want (.text ['-'])).2.next =
        (some ⟨.numeric, text, offset⟩, later) := by rw [hwant, hnext]
    refine ⟨later, hlater, ?_⟩
    rw [readNumber_of_numeric hnumeric, hwant]
    rfl

theorem readNumber_of_tokens {number rest : List Token} {n : Int} (h : NumberTokens number n)
    {cursor : Cursor} (hrow : cursor.row = number ++ rest) :
    ∃ later, readNumber cursor = (.ok n, later) ∧ later.row = rest := by
  cases h with
  | plain kind value =>
    obtain ⟨later, hlater, hread⟩ := readNumber_of_row [] hrow kind (Or.inl rfl)
    exact ⟨later, by rw [hread, value]; rfl, hlater⟩
  | negative sign kind value =>
    obtain ⟨later, hlater, hread⟩ :=
      readNumber_of_row [_] hrow kind (Or.inr ⟨_, rfl, sign⟩)
    exact ⟨later, by rw [hread, value]; rfl, hlater⟩

theorem readNumber_of_long {number rest : List Token} (h : LongNumberTokens number)
    {cursor : Cursor} (hrow : cursor.row = number ++ rest) :
    ∃ later, readNumber cursor = (.error .tooLong, later) := by
  cases h with
  | plain kind long =>
    obtain ⟨later, -, hread⟩ := readNumber_of_row [] hrow kind (Or.inl rfl)
    exact ⟨later, by rw [hread, long]; rfl⟩
  | negative sign kind long =>
    obtain ⟨later, -, hread⟩ :=
      readNumber_of_row [_] hrow kind (Or.inr ⟨_, rfl, sign⟩)
    exact ⟨later, by rw [hread, long]; rfl⟩

theorem readMember_of_comma {cursor later : Cursor} {token : Token}
    (h : cursor.next = (some token, later)) (htext : token.text = [',']) :
    readMember cursor = readMember later := by
  have haccepts : Want.accepts (.text [',']) (some token) = true := beq_iff_eq.mpr htext
  rw [readMember, Cursor.exhaust_of_next_some h, if_pos haccepts, readMember]

theorem readMembers_congr {before : NameTable} {counter : Int} {cursor other : Cursor}
    (h : readMember cursor = readMember other) :
    readMembers before counter cursor = readMembers before counter other := by
  rcases hother : readMember other with ⟨error | _ | ⟨name, value?⟩, later⟩
  · rw [readMembers_of_error hother, readMembers_of_error (h.trans hother)]
  · rw [readMembers_of_last hother, readMembers_of_last (h.trans hother)]
  · rw [readMembers_of_named hother, readMembers_of_named (h.trans hother)]

/-- Anything but a comma stops the skipping of commas, and is read again. -/
theorem exhaust_of_ne_comma {cursor later : Cursor} {token : Token}
    (h : cursor.next = (some token, later)) (htext : token.text ≠ [',']) :
    cursor.exhaust (.text [',']) = (false, later.seek token.offset) ∧
      (later.seek token.offset).next = (some token, later) := by
  have hrefuses : ¬ Want.accepts (.text [',']) (some token) = true :=
    fun haccepts => htext (eq_of_beq haccepts)
  rw [Cursor.exhaust_of_next_some h, if_neg hrefuses]
  exact ⟨rfl, Cursor.next_seek_offset h⟩

theorem readMember_of_name {cursor behind : Cursor} {token : Token} {name : Text}
    (h : cursor.next = (some token, behind)) (hname : memberName? (some token) = some name) :
    readMember cursor = readMemberEnd name behind := by
  have hcomma : token.text ≠ [','] := ne_of_memberName? h hname (by decide)
  have hbrace : token.text ≠ ['}'] := ne_of_memberName? h hname (by decide)
  obtain ⟨hexhaust, hagain⟩ := exhaust_of_ne_comma h hcomma
  simp only [readMember, hexhaust, hagain, Token.textOf, if_neg hbrace, hname]

theorem readMember_of_brace {cursor later : Cursor} {token : Token}
    (h : cursor.next = (some token, later)) (htext : token.text = ['}']) :
    readMember cursor = (.ok .last, later) := by
  have hcomma : token.text ≠ [','] := by
    rw [htext]
    decide
  obtain ⟨hexhaust, hagain⟩ := exhaust_of_ne_comma h hcomma
  simp only [readMember, hexhaust, hagain, Token.textOf, htext, if_true]

theorem readMember_of_none {cursor later : Cursor} (h : cursor.next = (none, later)) :
    readMember cursor = (.ok .last, later) := by
  simp only [readMember, Cursor.exhaust_of_next_none h]

/-- What may stand behind a member without a number: another one, a comma or a
closing brace. -/
def Continues (row : List Token) : Prop :=
  ∃ token, row.head? = some token ∧
    ((memberName? (some token)).isSome ∨ token.text = [','] ∨ token.text = ['}'])

theorem readMemberEnd_bare {cursor : Cursor} (name : Text) (h : Continues cursor.row) :
    ∃ later, readMemberEnd name cursor = (.ok (.named name none), later) ∧
      later.row = cursor.row := by
  obtain ⟨token, hhead, hbelongs⟩ := h
  obtain ⟨rest, hrow⟩ := List.head?_eq_some_iff.mp hhead
  obtain ⟨later, hnext, -⟩ := Cursor.next_of_row_cons hrow
  refine ⟨later.seek token.offset, ?_, Cursor.row_seek_offset hnext⟩
  simp only [readMemberEnd, hnext, if_pos hbelongs]

/-- An equals sign does not belong to the next member, so the number behind it is read. -/
theorem readMemberEnd_equals {cursor : Cursor} (name : Text) {equals : Token} {rest : List Token}
    (hequals : equals.text = ['=']) (hrow : cursor.row = equals :: rest) :
    ∃ middle, Cursor.row middle = rest ∧ readMemberEnd name cursor =
      ((readNumber middle).1.map fun n => .named name (some n), (readNumber middle).2) := by
  obtain ⟨middle, hnext, hmiddle⟩ := Cursor.next_of_row_cons hrow
  refine ⟨middle, hmiddle, ?_⟩
  have hother : ¬ ((memberName? (some equals)).isSome = true ∨ equals.text = [','] ∨
      equals.text = ['}']) := by
    rintro (hname | hcomma | hbrace)
    · obtain ⟨other, hother⟩ := Option.isSome_iff_exists.mp hname
      exact ne_of_memberName? hnext hother (by decide) hequals
    · rw [hequals] at hcomma
      exact absurd hcomma (by decide)
    · rw [hequals] at hbrace
      exact absurd hbrace (by decide)
  simp only [readMemberEnd, hnext, if_neg hother, if_pos hequals]

theorem readMemberEnd_valued {cursor : Cursor} (name : Text) {equals : Token}
    {number rest : List Token} {n : Int} (hequals : equals.text = ['='])
    (hnumber : NumberTokens number n) (hrow : cursor.row = equals :: (number ++ rest)) :
    ∃ later, readMemberEnd name cursor = (.ok (.named name (some n)), later) ∧
      later.row = rest := by
  obtain ⟨middle, hmiddle, hend⟩ := readMemberEnd_equals name hequals hrow
  obtain ⟨later, hread, hlater⟩ := readNumber_of_tokens hnumber hmiddle
  exact ⟨later, by rw [hend, hread]; rfl, hlater⟩

theorem MemberTokens.continues {inner : List Token} {members : List (Text × Option Int)}
    (h : MemberTokens inner members) (hne : inner ≠ []) (tail : List Token) :
    Continues (inner ++ tail) := by
  cases h with
  | nothing => exact absurd rfl hne
  | @comma token _ _ text others => exact ⟨token, rfl, Or.inr (Or.inl text)⟩
  | @bare token _ _ _ named others => exact ⟨token, rfl, Or.inl (by rw [named]; rfl)⟩
  | @valued token _ _ _ _ _ _ named sign value others =>
    exact ⟨token, rfl, Or.inl (by rw [named]; rfl)⟩

/-- What may come behind the members: something that may stand behind any of them, or
anything at all where they do not end in a name. -/
def Follows (inner tail : List Token) : Prop :=
  Continues tail ∨ memberName? inner.getLast? = none

theorem last_of_append {front inner : List Token}
    (h : memberName? (front ++ inner).getLast? = none) : memberName? inner.getLast? = none := by
  cases inner with
  | nil => rfl
  | cons token inner => rwa [List.getLast?_append_of_ne_nil _ (List.cons_ne_nil token inner)] at h

theorem Follows.of_append (front : List Token) {inner tail : List Token}
    (h : Follows (front ++ inner) tail) : Follows inner tail :=
  h.imp id last_of_append

/-- **The loop over the members**, by induction on their tokens, comes to what stands
behind them. -/
theorem readMembers_append {inner tail : List Token} {members : List (Text × Option Int)}
    (h : MemberTokens inner members) (htail : Follows inner tail) {before : NameTable}
    {counter : Int} {cursor : Cursor} (hrow : cursor.row = inner ++ tail) :
    ∃ reached last, Cursor.row last = tail ∧ readMembers before counter cursor =
      readMembers (before.insertAll (valuesFrom counter members)) reached last := by
  induction h generalizing before counter cursor with
  | nothing => exact ⟨counter, cursor, hrow, rfl⟩
  | @comma token tokens members text others ih =>
    obtain ⟨middle, hnext, hmiddle⟩ := Cursor.next_of_row_cons hrow
    rw [readMembers_congr (readMember_of_comma hnext text)]
    exact ih (Follows.of_append [token] htail) hmiddle
  | @bare token name tokens members named others ih =>
    obtain ⟨behind, hnext, hbehind⟩ := Cursor.next_of_row_cons hrow
    have hcontinues : Continues behind.row := by
      rw [hbehind]
      rcases eq_or_ne tokens [] with rfl | hne
      · exact htail.resolve_right fun hlast => by cases named.symm.trans hlast
      · exact others.continues hne tail
    obtain ⟨middle, hend, hmiddle⟩ := readMemberEnd_bare name hcontinues
    rw [readMembers_of_named ((readMember_of_name hnext named).trans hend)]
    exact ih (Follows.of_append [token] htail) (hmiddle.trans hbehind)
  | @valued token equals name number tokens n members named sign value others ih =>
    obtain ⟨behind, hnext, hbehind⟩ := Cursor.next_of_row_cons hrow
    rw [List.append_eq, List.cons_append, List.append_assoc] at hbehind
    obtain ⟨middle, hend, hmiddle⟩ := readMemberEnd_valued name sign value hbehind
    rw [readMembers_of_named ((readMember_of_name hnext named).trans hend)]
    exact ih (Follows.of_append (token :: equals :: number) htail) hmiddle

/-- Behind the members comes a closing brace, or the end of the input where they do
not end in a name. -/
def Ends (inner tail : List Token) : Prop :=
  (∃ close rest, tail = close :: rest ∧ close.text = ['}']) ∨
    tail = [] ∧ memberName? inner.getLast? = none

/-- Either ends the loop. A token behind the members is the closing brace, and the last
one that is read. -/
theorem readMembers_of_tokens {inner tail : List Token} {members : List (Text × Option Int)}
    (h : MemberTokens inner members) (htail : Ends inner tail) {before : NameTable}
    {counter : Int} {cursor : Cursor} (hrow : cursor.row = inner ++ tail) :
    ∃ later, readMembers before counter cursor =
        (.ok (before.insertAll (valuesFrom counter members)), later) ∧
      ∀ close, tail.head? = some close → ∃ front, Cursor.next front = (some close, later) := by
  rcases htail with ⟨close, rest, rfl, hclose⟩ | ⟨rfl, hlast⟩
  · have hfollows : Follows inner (close :: rest) := Or.inl ⟨close, rfl, Or.inr (Or.inr hclose)⟩
    obtain ⟨reached, front, hfront, hloop⟩ := readMembers_append h hfollows hrow
    obtain ⟨later, hnext, -⟩ := Cursor.next_of_row_cons hfront
    refine ⟨later, hloop.trans (readMembers_of_last (readMember_of_brace hnext hclose)), ?_⟩
    rintro _ ⟨⟩
    exact ⟨front, hnext⟩
  · obtain ⟨reached, front, hfront, hloop⟩ := readMembers_append h (Or.inr hlast) hrow
    obtain ⟨later, hnext, -⟩ := Cursor.next_of_row_nil hfront
    exact ⟨later, hloop.trans (readMembers_of_last (readMember_of_none hnext)), nofun⟩

theorem readTag_of_operator {cursor later : Cursor} {token : Token}
    (h : cursor.next = (some token, later)) (kind : token.kind = .operator) :
    readTag cursor = (none, cursor) := by
  have hwant : cursor.want (.kind (some .identifier)) = (none, cursor) := by
    simp [Cursor.want, h, Want.accepts, Token.kind?, kind]
  rw [readTag, hwant]

theorem readTag_of_identifier {cursor later : Cursor} {token : Token}
    (h : cursor.next = (some token, later)) (kind : token.kind = .identifier) :
    readTag cursor = (some token.text, later) := by
  have hwant : cursor.want (.kind (some .identifier)) = (some (some token), later) := by
    simp [Cursor.want, h, Want.accepts, Token.kind?, kind]
  rw [readTag, hwant]
  rfl

theorem readBody_of_tag {cursor front inside : Cursor} {tag : Option Text} {brace : Token}
    (htag : readTag cursor = (tag, front)) (hbrace : front.next = (some brace, inside))
    (htext : brace.text = ['{']) :
    readBody cursor = ((readMembers ∅ 0 inside).1.map (⟨tag, ·⟩), (readMembers ∅ 0 inside).2) := by
  simp only [readBody, htag, hbrace, Token.textOf, if_pos htext]

theorem read_of_keyword {cursor body : Cursor} {word : Token}
    (h : cursor.next = (some word, body)) (htext : word.text = keyword) :
    read cursor = readBody body := by
  have hwant : cursor.want (.text keyword) = (some (some word), body) := by
    simp [Cursor.want, h, Want.accepts, Token.textOf, htext]
  rw [read, hwant]

/-- Behind its opening a definition is a matter of its members. -/
theorem read_of_opening {opening rest : List Token} {tag : Option Text}
    (h : OpeningTokens opening tag) {cursor : Cursor} (hrow : cursor.row = opening ++ rest) :
    ∃ inside, Cursor.row inside = rest ∧ read cursor =
      ((readMembers ∅ 0 inside).1.map (⟨tag, ·⟩), (readMembers ∅ 0 inside).2) := by
  cases h with
  | @untagged word brace begins opens =>
    obtain ⟨body, hword, hbody⟩ := Cursor.next_of_row_cons hrow
    obtain ⟨inside, hbrace, hinside⟩ := Cursor.next_of_row_cons hbody
    refine ⟨inside, hinside, ?_⟩
    have hoperator := Cursor.kind_of_operator hbrace (by decide) opens
    rw [read_of_keyword hword begins,
      readBody_of_tag (readTag_of_operator hbrace hoperator) hbrace opens]
  | @tagged word tag brace begins kind opens =>
    obtain ⟨body, hword, hbody⟩ := Cursor.next_of_row_cons hrow
    obtain ⟨front, htag, hfront⟩ := Cursor.next_of_row_cons hbody
    obtain ⟨inside, hbrace, hinside⟩ := Cursor.next_of_row_cons hfront
    refine ⟨inside, hinside, ?_⟩
    rw [read_of_keyword hword begins,
      readBody_of_tag (readTag_of_identifier htag kind) hbrace opens]

/-- A definition is read, whole or cut short. -/
theorem read_of_tokens {opening inner tail : List Token} {tag : Option Text}
    {members : List (Text × Option Int)} (hopening : OpeningTokens opening tag)
    (hinner : MemberTokens inner members) (htail : Ends inner tail) {cursor : Cursor}
    (hrow : cursor.row = opening ++ (inner ++ tail)) :
    ∃ later, read cursor = (.ok ⟨tag, Table.ofList (valuesFrom 0 members)⟩, later) ∧
      ∀ close, tail.head? = some close → ∃ front, Cursor.next front = (some close, later) := by
  obtain ⟨inside, hinside, hread⟩ := read_of_opening hopening hrow
  obtain ⟨later, hmembers, hlast⟩ := readMembers_of_tokens hinner htail hinside
  refine ⟨later, ?_, hlast⟩
  rw [hread, hmembers]
  rfl

theorem read_of_definitionTokens {tokens rest : List Token} {enumeration : Enumeration}
    (h : DefinitionTokens tokens enumeration) {cursor : Cursor}
    (hrow : cursor.row = tokens ++ rest) :
    ∃ later, read cursor = (.ok enumeration, later) := by
  obtain ⟨opening, inner, members, close, rfl, hopening, hinner, hclose, hall⟩ := h
  obtain ⟨later, hread, -⟩ := read_of_tokens hopening hinner
    (Or.inl ⟨close, rest, rfl, hclose⟩) (hrow.trans (by simp))
  rw [← hall] at hread
  exact ⟨later, hread⟩

/-- A definition is not read beyond a number that is too long. -/
theorem read_of_stopsLong {cursor : Cursor} (h : StopsLong cursor.row) :
    ∃ later, read cursor = (.error .tooLong, later) := by
  obtain ⟨opening, inner, members, tag, word, equals, number, rest, hrow, hopening, hinner, hword,
    hequals, hlong⟩ := h
  obtain ⟨name, hname⟩ := Option.isSome_iff_exists.mp hword
  obtain ⟨inside, hinside, hread⟩ := read_of_opening hopening hrow
  have hfollows : Follows inner (word :: equals :: (number ++ rest)) :=
    Or.inl ⟨word, rfl, Or.inl hword⟩
  obtain ⟨reached, front, hfront, hloop⟩ :=
    @readMembers_append _ _ _ hinner hfollows ∅ 0 _ hinside
  obtain ⟨behind, hnext, hbehind⟩ := Cursor.next_of_row_cons hfront
  obtain ⟨middle, hmiddle, hend⟩ := readMemberEnd_equals name hequals hbehind
  obtain ⟨later, hnumber⟩ := readNumber_of_long hlong hmiddle
  rw [hnumber] at hend
  refine ⟨later, ?_⟩
  rw [hread, hloop, readMembers_of_error ((readMember_of_name hnext hname).trans hend)]
  rfl

theorem stopsLong_iff (cursor : Cursor) :
    (∃ later, read cursor = (.error .tooLong, later)) ↔ StopsLong cursor.row :=
  ⟨fun ⟨_, h⟩ => stopsLong_of_read h, read_of_stopsLong⟩

/-- What is cut short is accepted. -/
theorem read_of_cutShort {cursor : Cursor} (h : CutShort cursor.row) :
    ∃ enumeration later, read cursor = (.ok enumeration, later) := by
  obtain ⟨opening, inner, members, tag, hrow, hopening, hinner, hlast⟩ := h
  have hends : Ends inner [] := Or.inr ⟨rfl, last_of_append (hrow ▸ hlast)⟩
  have hsplit : cursor.row = opening ++ (inner ++ []) := by rw [hrow, List.append_nil]
  obtain ⟨later, hread, -⟩ := read_of_tokens hopening hinner hends hsplit
  exact ⟨_, later, hread⟩

/-- **What is accepted**: a definition, or one that is cut short, and nothing else. -/
theorem accepts_iff (cursor : Cursor) :
    (∃ enumeration later, read cursor = (.ok enumeration, later)) ↔
      (∃ tokens rest enumeration, DefinitionTokens tokens enumeration ∧
        cursor.row = tokens ++ rest) ∨ CutShort cursor.row := by
  constructor
  · rintro ⟨enumeration, later, hread⟩
    rcases definitionTokens_of_read hread with hcut | ⟨tokens, close, hrow, hdefinition, -⟩
    · exact Or.inr hcut
    · exact Or.inl ⟨tokens ++ [close], later.row, enumeration, hdefinition, by rw [hrow]; simp⟩
  · rintro (⟨tokens, rest, enumeration, hdefinition, hrow⟩ | hcut)
    · obtain ⟨later, hread⟩ := read_of_definitionTokens hdefinition hrow
      exact ⟨enumeration, later, hread⟩
    · exact read_of_cutShort hcut

/-- **Definitions are read whole.** Unless what lies ahead is cut short, what is
read is a definition and the cursor stands behind its brace; and what does not
begin with a definition is an error, but for a number that is too long: there
reading stops, and tells nothing. -/
theorem read_whole {cursor : Cursor} (h : ¬ CutShort cursor.row) :
    (∀ enumeration later, read cursor = (.ok enumeration, later) →
      ∃ tokens close, cursor.row = tokens ++ close :: later.row ∧
        DefinitionTokens (tokens ++ [close]) enumeration ∧
        later = cursor.seek (close.offset + 1)) ∧
    ((∃ error later, read cursor = (.error (.refused error), later)) ↔
      (¬ ∃ tokens rest enumeration, DefinitionTokens tokens enumeration ∧
        cursor.row = tokens ++ rest) ∧ ¬ StopsLong cursor.row) ∧
    ((∃ later, read cursor = (.error .tooLong, later)) ↔ StopsLong cursor.row) := by
  refine ⟨fun enumeration later hread => (definitionTokens_of_read hread).resolve_left h, ?_,
    stopsLong_iff cursor⟩
  have haccepts := accepts_iff cursor
  rw [or_iff_left h] at haccepts
  rw [← haccepts, ← stopsLong_iff]
  constructor
  · rintro ⟨error, later, herror⟩
    refine ⟨?_, ?_⟩
    · rintro ⟨enumeration, other, hok⟩
      cases herror.symm.trans hok
    · rintro ⟨other, hlong⟩
      cases herror.symm.trans hlong
  · rintro ⟨hnone, hshort⟩
    rcases hread : read cursor with ⟨(error | _) | enumeration, later⟩
    · exact ⟨error, later, rfl⟩
    · exact absurd ⟨later, hread⟩ hshort
    · exact absurd ⟨enumeration, later, hread⟩ hnone

/-- Two members with commas around them, and a word behind the definition. -/
theorem read_whole_two :
    let cursor := Cursor.ofText "enum E \x7b, A = -2,, \"b c\" \x7d x".toList
    ¬ CutShort cursor.row ∧
    ∃ later tokens close,
      read cursor = (.ok ⟨some ['E'], Table.ofList [(['A'], -2), ("b c".toList, -1)]⟩, later) ∧
        cursor.row = tokens ++ close :: later.row ∧
        DefinitionTokens (tokens ++ [close])
          ⟨some ['E'], Table.ofList [(['A'], -2), ("b c".toList, -1)]⟩ ∧
        later = cursor.seek (close.offset + 1) := by
  intro cursor
  have hlast : cursor.row.getLast? = some ⟨.identifier, ['x'], 27⟩ := by decide +kernel
  have hcut : ¬ CutShort cursor.row := by
    rintro ⟨_, _, _, _, -, -, -, hname⟩
    rw [hlast] at hname
    cases hname
  have hread : read cursor = (.ok ⟨some ['E'], Table.ofList [(['A'], -2), ("b c".toList, -1)]⟩,
      cursor.seek 26) := by decide +kernel
  obtain ⟨tokens, close, hrow, hdefinition, hlater⟩ := (read_whole hcut).1 _ _ hread
  exact ⟨hcut, _, tokens, close, hread, hrow, hdefinition, hlater⟩

/-- Without its closing brace a definition is accepted, behind a comma. -/
theorem read_whole_cutShort :
    let cursor := Cursor.ofText "enum \x7b A,".toList
    (∃ later, read cursor = (.ok ⟨none, Table.ofList [(['A'], 0)]⟩, later)) ∧
      ¬ ∃ tokens rest enumeration, DefinitionTokens tokens enumeration ∧
        cursor.row = tokens ++ rest := by
  intro cursor
  refine ⟨⟨cursor.finish, by decide +kernel⟩, ?_⟩
  rintro ⟨tokens, rest, enumeration, ⟨opening, inner, members, close, rfl, -, -, hclose, -⟩, hrow⟩
  have hbraces : ∀ token ∈ cursor.row, token.text ≠ ['}'] := by decide +kernel
  exact hbraces close (by rw [hrow]; simp) hclose

end Enumeration

end BitLayout
