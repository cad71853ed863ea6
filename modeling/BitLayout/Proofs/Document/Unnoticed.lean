import BitLayout.Layout
import BitLayout.Proofs.Cursor.Line
import BitLayout.Proofs.Document.Reading
import BitLayout.Proofs.Numeral.RoundTrip
import BitLayout.Proofs.Text.Joined
import BitLayout.Proofs.Token.Front

/-!
# Differences that no reader notices

Two descriptions that differ only between their tokens, or at the ends of
their lines, mean the same. This module says what that takes, once for all
such differences: a relation between what lies ahead of two cursors is
`Unnoticed` if related texts begin with the same token, what follows the
token is related again, and the line that the token begins describes the
same field and has related lines below it.

Positions are not part of it, so the two runs go through different ones;
each reader is shown to answer the same in both, up to what its errors tell
(`outcome`), and to leave related texts ahead. Most of them only read tokens and
step back to the start of a token, which puts the same text ahead again. The
two that go on to the next line, for a macro and for a field, do so from
right behind a token.

A change of texts that gaps and lines commute with is such a difference,
between a text and the changed one (`Harmless.ofText`).
-/

namespace BitLayout

/-! ## Outcomes -/

/-- A failure without what it tells. -/
def Failure.untold {ε : Type} (failure : Failure ε) : Failure Unit :=
  failure.map fun _ => ()

@[simp] theorem Failure.untold_map {ε δ : Type} (f : ε → δ) (failure : Failure ε) :
    (failure.map f).untold = failure.untold := by
  cases failure <;> rfl

/-- What becomes of reading: an answer, an error whatever it tells, or a number that is too
long. -/
def outcome {ε α : Type} (result : Except (Failure ε) α) : Except (Failure Unit) α :=
  result.mapError Failure.untold

theorem outcome_map {ε α β : Type} (f : α → β) (result : Except (Failure ε) α) :
    outcome (result.map f) = (outcome result).map f := by
  cases result <;> rfl

theorem outcome_eq_ok_iff {ε α : Type} {result : Except (Failure ε) α} {answer : α} :
    outcome result = .ok answer ↔ result = .ok answer :=
  mapError_eq_ok_iff

namespace Document

/-- The field that a line describes, with the lines it is joined of. -/
def fieldOf (line : Text) : Except (Failure Unit) Field :=
  Field.ofContent line.joined

/-- A difference between what lies ahead of two cursors that no reader notices. -/
structure Unnoticed (R : Text → Text → Prop) : Prop where
  nil : ∀ {other}, R [] other → other = []
  token : ∀ {one other}, R one other → one ≠ [] →
    ∃ kind word rest rest', Token.Begins one kind word rest ∧ Token.Begins other kind word rest' ∧
      R (Token.dropGap .between rest) (Token.dropGap .between rest') ∧
      fieldOf (word ++ (Cursor.cutLine false rest).1) =
        fieldOf (word ++ (Cursor.cutLine false rest').1) ∧
      R (Token.dropGap .between (Cursor.cutLine false rest).2)
        (Token.dropGap .between (Cursor.cutLine false rest').2)

/-- Two cursors behind a token, or at the end: related on the line and on the
next one. -/
structure Behind (R : Text → Text → Prop) (one other : Cursor) : Prop where
  line : R one.ahead other.ahead
  below : R (one.split ['\n']).2.ahead (other.split ['\n']).2.ahead

/-- Both cursors read the same. -/
inductive ReadsSame (R : Text → Text → Prop) (one other : Cursor) : Prop where
  | none {later later' : Cursor} (left : one.next = (none, later))
      (right : other.next = (none, later')) (behind : Behind R later later')
  | some {kind : TokenKind} {word : Text} {offset offset' : Nat} {later later' : Cursor}
      (left : one.next = (some ⟨kind, word, offset⟩, later))
      (right : other.next = (some ⟨kind, word, offset'⟩, later'))
      (behind : Behind R later later')
      (back : R (later.seek offset).ahead (later'.seek offset').ahead)
      (field : fieldOf (later.slice (some offset) (some (later.split ['\n']).1)) =
        fieldOf (later'.slice (some offset') (some (later'.split ['\n']).1)))

/-- Both readers answer the same, or fail in the same way. -/
inductive SameAnswer {ε α : Type} (R : Text → Text → Prop) :
    Except (Failure ε) α × Cursor → Except (Failure ε) α × Cursor → Prop where
  | ok {answer : α} {later later' : Cursor} (ahead : R later.ahead later'.ahead) :
      SameAnswer R (.ok answer, later) (.ok answer, later')
  | error {e e' : Failure ε} {later later' : Cursor} (same : e.untold = e'.untold)
      (ahead : R later.ahead later'.ahead) : SameAnswer R (.error e, later) (.error e', later')

theorem SameAnswer.map {ε α β : Type} {R : Text → Text → Prop}
    {one other : Except (Failure ε) α × Cursor} (h : SameAnswer R one other) (f : α → β) :
    SameAnswer R (one.1.map f, one.2) (other.1.map f, other.2) := by
  cases h with
  | ok ahead => exact .ok ahead
  | error same ahead => exact .error same ahead

namespace Unnoticed

variable {R : Text → Text → Prop} {one other : Cursor}

theorem next_of_begins {cursor : Cursor} {kind : TokenKind} {word rest : Text}
    (h : Token.Begins cursor.ahead kind word rest) :
    ∃ offset later, cursor.next = (some ⟨kind, word, offset⟩, later) := by
  obtain ⟨c, tail, hahead⟩ := List.exists_cons_of_ne_nil h.nonempty
  obtain ⟨offset, hnext, -⟩ := Cursor.next_of_ahead hahead
  rw [h.lexeme c tail hahead] at hnext
  exact ⟨offset, _, hnext⟩

theorem split_ended {cursor : Cursor} (h : cursor.ended = true) :
    (cursor.split ['\n']).2.ahead = [] := by
  refine Cursor.ahead_of_ended ?_
  unfold Cursor.split
  split
  · exact h
  · rfl

theorem next_of_ahead_eq_nil {cursor : Cursor} (h : cursor.ahead = []) :
    ∃ later, cursor.next = (none, later) ∧ later.ended = true := by
  obtain ⟨hnone, hended⟩ := Cursor.next_of_ahead_nil h
  exact ⟨cursor.next.2, Prod.ext hnone rfl, hended⟩

theorem next (hR : Unnoticed R) (h : R one.ahead other.ahead) : ReadsSame R one other := by
  by_cases hone : one.ahead = []
  · rw [hone] at h
    have hother := hR.nil h
    rw [hother] at h
    obtain ⟨later, hleft, hended⟩ := next_of_ahead_eq_nil hone
    obtain ⟨later', hright, hended'⟩ := next_of_ahead_eq_nil hother
    refine .none hleft hright ⟨?_, ?_⟩
    · rw [Cursor.ahead_of_ended hended, Cursor.ahead_of_ended hended']
      exact h
    · rw [split_ended hended, split_ended hended']
      exact h
  · obtain ⟨kind, word, rest, rest', hbegins, hbegins', hrest, hfield, hbelow⟩ := hR.token h hone
    obtain ⟨offset, later, hleft⟩ := next_of_begins hbegins
    obtain ⟨offset', later', hright⟩ := next_of_begins hbegins'
    obtain ⟨hslice, hnext⟩ :=
      Cursor.split_behind_token hleft hbegins.cut hbegins.unescaped
    obtain ⟨hslice', hnext'⟩ :=
      Cursor.split_behind_token hright hbegins'.cut hbegins'.unescaped
    refine .some hleft hright ⟨?_, ?_⟩ ?_ ?_
    · rw [Cursor.ahead_behind_token hleft hbegins.cut,
        Cursor.ahead_behind_token hright hbegins'.cut]
      exact hrest
    · rw [hnext, hnext']
      exact hbelow
    · rw [Cursor.ahead_seek_offset hleft, Cursor.ahead_seek_offset hright]
      exact h
    · rw [hslice, hslice']
      exact hfield

/-! ## Operations of a cursor -/

theorem want (hR : Unnoticed R) (h : R one.ahead other.ahead) (w : Want) :
    (one.want w).1.map Token.textOf = (other.want w).1.map Token.textOf ∧
      R (one.want w).2.ahead (other.want w).2.ahead := by
  cases hR.next h with
  | none left right behind =>
    simp only [Cursor.want, left, right]
    split
    · exact ⟨rfl, behind.line⟩
    · exact ⟨rfl, h⟩
  | @some kind word offset offset' _ _ left right behind =>
    simp only [Cursor.want, left, right, Token.accepts_offset w kind word offset offset']
    split
    · exact ⟨rfl, behind.line⟩
    · exact ⟨rfl, h⟩

theorem exhaust (hR : Unnoticed R) (w : Want) (h : R one.ahead other.ahead) :
    (one.exhaust w).1 = (other.exhaust w).1 ∧
      R (one.exhaust w).2.ahead (other.exhaust w).2.ahead := by
  induction hn : one.remaining using Nat.strongRecOn generalizing one other with
  | ind n ih =>
    cases hR.next h with
    | none left right behind =>
      rw [Cursor.exhaust_of_next_none left, Cursor.exhaust_of_next_none right]
      exact ⟨rfl, behind.line⟩
    | @some kind word offset offset' _ _ left right behind back =>
      rw [Cursor.exhaust_of_next_some left, Cursor.exhaust_of_next_some right,
        Token.accepts_offset w kind word offset offset']
      split
      · exact ih _ (hn ▸ Cursor.remaining_next left) behind.line rfl
      · exact ⟨rfl, back⟩

theorem matchedTexts (hR : Unnoticed R) (wants : List Want) (h : Behind R one other) :
    (Cursor.matchedTexts wants one).1 = (Cursor.matchedTexts wants other).1 ∧
      Option.Rel (Behind R) (Cursor.matchedTexts wants one).2
        (Cursor.matchedTexts wants other).2 := by
  induction wants generalizing one other with
  | nil => exact ⟨rfl, .some h⟩
  | cons w wants ih =>
    cases hR.next h.line with
    | none left right behind =>
      obtain ⟨htexts, hlast⟩ := ih behind
      simp only [Cursor.matchedTexts, left, right]
      split
      · exact ⟨congrArg (List.cons _) htexts, hlast⟩
      · exact ⟨rfl, .none⟩
    | @some kind word offset offset' _ _ left right behind =>
      obtain ⟨htexts, hlast⟩ := ih behind
      simp only [Cursor.matchedTexts, left, right, Token.accepts_offset w kind word offset offset']
      split
      · exact ⟨congrArg (List.cons _) htexts, hlast⟩
      · exact ⟨rfl, .none⟩

theorem matchAll (hR : Unnoticed R) (wants : List Want) (h : Behind R one other) :
    (one.matchAll wants).1 = (other.matchAll wants).1 ∧
      Behind R (one.matchAll wants).2 (other.matchAll wants).2 := by
  obtain ⟨htexts, hlast⟩ := hR.matchedTexts wants h
  refine ⟨htexts, ?_⟩
  show Behind R ((Cursor.matchedTexts wants one).2.getD one)
    ((Cursor.matchedTexts wants other).2.getD other)
  generalize (Cursor.matchedTexts wants one).2 = last at hlast
  generalize (Cursor.matchedTexts wants other).2 = last' at hlast
  cases hlast with
  | none => exact h
  | some hbehind => exact hbehind

/-! ## Enumerations -/

theorem readTag_eq (cursor : Cursor) :
    Enumeration.readTag cursor =
      ((cursor.want (.kind (some .identifier))).1.map Token.textOf,
        (cursor.want (.kind (some .identifier))).2) := by
  unfold Enumeration.readTag
  split <;> next h => rw [h]; rfl

theorem readTag (hR : Unnoticed R) (h : R one.ahead other.ahead) :
    (Enumeration.readTag one).1 = (Enumeration.readTag other).1 ∧
      R (Enumeration.readTag one).2.ahead (Enumeration.readTag other).2.ahead := by
  rw [readTag_eq, readTag_eq]
  exact hR.want h _

theorem isSome_want (hR : Unnoticed R) (h : R one.ahead other.ahead) (w : Want) :
    (one.want w).1.isSome = (other.want w).1.isSome := by
  rw [← Option.isSome_map (f := Token.textOf), (hR.want h w).1, Option.isSome_map]

theorem readNumber (hR : Unnoticed R) (h : R one.ahead other.ahead) :
    SameAnswer R (Enumeration.readNumber one) (Enumeration.readNumber other) := by
  have hsign := hR.isSome_want h (.text ['-'])
  obtain ⟨-, hminus⟩ := hR.want h (.text ['-'])
  cases hR.next hminus with
  | none left right behind =>
    rw [Enumeration.readNumber_of_other left nofun, Enumeration.readNumber_of_other right nofun]
    exact .error rfl behind.line
  | @some kind word offset offset' _ _ left right behind =>
    by_cases hkind : kind = .numeric
    · subst hkind
      rw [Enumeration.readNumber_of_numeric left, Enumeration.readNumber_of_numeric right, hsign]
      cases Numeral.read .dec word with
      | ok n => exact .ok behind.line
      | error e => exact .error (by simp only [Failure.untold_map]) behind.line
    · have hother : ∀ offset, Token.kind? (some ⟨kind, word, offset⟩) ≠ some .numeric :=
        fun _ heq => hkind (Option.some.inj heq)
      rw [Enumeration.readNumber_of_other left (hother offset),
        Enumeration.readNumber_of_other right (hother offset')]
      exact .error rfl behind.line

theorem memberName?_eq (kind : TokenKind) (word : Text) (offset offset' : Nat) :
    Enumeration.memberName? (some ⟨kind, word, offset⟩) =
      Enumeration.memberName? (some ⟨kind, word, offset'⟩) := by
  cases kind <;> rfl

theorem readMemberEnd (hR : Unnoticed R) (h : R one.ahead other.ahead) (name : Text) :
    SameAnswer R (Enumeration.readMemberEnd name one) (Enumeration.readMemberEnd name other) := by
  cases hR.next h with
  | none left right behind =>
    simp only [Enumeration.readMemberEnd, left, right]
    exact .error rfl behind.line
  | @some kind word offset offset' _ _ left right behind back =>
    simp only [Enumeration.readMemberEnd, left, right, memberName?_eq kind word offset offset']
    split
    · exact .ok back
    · split
      · exact (hR.readNumber behind.line).map _
      · exact .error rfl behind.line

theorem readMember (hR : Unnoticed R) (h : R one.ahead other.ahead) :
    SameAnswer R (Enumeration.readMember one) (Enumeration.readMember other) := by
  obtain ⟨hend, hfront⟩ := hR.exhaust (.text [',']) h
  unfold Enumeration.readMember
  rcases hone : one.exhaust (.text [',']) with ⟨reached, front⟩
  rcases hother : other.exhaust (.text [',']) with ⟨reached', front'⟩
  rw [hone, hother] at hend hfront
  dsimp only at hend hfront
  subst hend
  cases reached with
  | true => exact .ok hfront
  | false =>
    cases hR.next hfront with
    | none left right behind =>
      simp only [left, right]
      exact .error rfl behind.line
    | @some kind word offset offset' _ _ left right behind =>
      simp only [left, right, memberName?_eq kind word offset offset', Token.textOf]
      split
      · exact .ok behind.line
      · split
        · exact hR.readMemberEnd behind.line _
        · exact .error rfl behind.line

theorem readMembers (hR : Unnoticed R) (members : NameTable) (counter : Int)
    (h : R one.ahead other.ahead) :
    SameAnswer R (Enumeration.readMembers members counter one)
      (Enumeration.readMembers members counter other) := by
  induction hn : one.remaining using Nat.strongRecOn generalizing one other members counter with
  | ind n ih =>
    have hmember := hR.readMember h
    generalize hone : Enumeration.readMember one = read at hmember
    generalize hother : Enumeration.readMember other = read' at hmember
    cases hmember with
    | error same ahead =>
      rw [Enumeration.readMembers_of_error hone, Enumeration.readMembers_of_error hother]
      exact .error same ahead
    | @ok member _ _ ahead =>
      cases member with
      | last =>
        rw [Enumeration.readMembers_of_last hone, Enumeration.readMembers_of_last hother]
        exact .ok ahead
      | named name value? =>
        rw [Enumeration.readMembers_of_named hone, Enumeration.readMembers_of_named hother]
        exact ih _ (hn ▸ Enumeration.remaining_readMember hone) _ _ ahead rfl

theorem readBody (hR : Unnoticed R) (h : R one.ahead other.ahead) :
    SameAnswer R (Enumeration.readBody one) (Enumeration.readBody other) := by
  obtain ⟨htag, hbehind⟩ := hR.readTag h
  simp only [Enumeration.readBody, htag]
  cases hR.next hbehind with
  | none left right behind =>
    simp only [left, right]
    exact .error rfl behind.line
  | some left right behind =>
    simp only [left, right, Token.textOf]
    split
    · exact (hR.readMembers ∅ 0 behind.line).map _
    · exact .error rfl behind.line

theorem read (hR : Unnoticed R) (h : R one.ahead other.ahead) :
    SameAnswer R (Enumeration.read one) (Enumeration.read other) := by
  have hsome := hR.isSome_want h (.text Enumeration.keyword)
  obtain ⟨-, hlater⟩ := hR.want h (.text Enumeration.keyword)
  unfold Enumeration.read
  rcases hone : one.want (.text Enumeration.keyword) with ⟨_ | found, later⟩ <;>
    rcases hother : other.want (.text Enumeration.keyword) with ⟨_ | found', later'⟩ <;>
    rw [hone, hother] at hsome hlater
  case none.none => exact .error rfl hlater
  case some.some => exact hR.readBody hlater
  all_goals cases hsome

/-! ## Items -/

/-- Both readers give the same item, or fail in the same way. -/
inductive SameItem (R : Text → Text → Prop) : Reading Item → Reading Item → Prop where
  | ok {item : Item} {later later' : Cursor} (ahead : R later.ahead later'.ahead) :
      SameItem R (.ok (item, later)) (.ok (item, later'))
  | error {e e' : Failure DocumentError} (same : e.untold = e'.untold) :
      SameItem R (.error e) (.error e')

theorem readDefine (hR : Unnoticed R) (h : Behind R one other) :
    SameItem R (Document.readDefine one) (Document.readDefine other) := by
  obtain ⟨htexts, hlast⟩ := hR.matchAll
    [.text ['d', 'e', 'f', 'i', 'n', 'e'], .kind (some .identifier), .kind (some .numeric)] h
  simp only [Document.readDefine, htexts]
  split
  · split
    · exact .ok hlast.below
    · exact .error (by simp only [Failure.untold_map])
  · exact .error rfl

theorem skipSemicolons (hR : Unnoticed R) (h : R one.ahead other.ahead) :
    R (Document.skipSemicolons one).ahead (Document.skipSemicolons other).ahead :=
  (hR.exhaust _ h).2

theorem readEnumeration (hR : Unnoticed R) (h : R one.ahead other.ahead) (start start' : Nat) :
    SameItem R (Document.readEnumeration start one) (Document.readEnumeration start' other) := by
  have hbody := hR.readBody h
  unfold Document.readEnumeration
  generalize Enumeration.readBody one = read at hbody
  generalize Enumeration.readBody other = read' at hbody
  cases hbody with
  | ok ahead => exact .ok (hR.skipSemicolons ahead)
  | error same => exact .error (by simpa only [Failure.untold_map] using same)

theorem readTypedef (hR : Unnoticed R) (h : R one.ahead other.ahead) :
    SameItem R (Document.readTypedef one) (Document.readTypedef other) := by
  have hread := hR.read h
  unfold Document.readTypedef
  generalize Enumeration.read one = read at hread
  generalize Enumeration.read other = read' at hread
  cases hread with
  | ok ahead =>
    obtain ⟨hsecond, hbehind⟩ := hR.readTag ahead
    simp only [hsecond]
    exact .ok (hR.skipSemicolons hbehind)
  | error same => exact .error (by simpa only [Failure.untold_map] using same)

/-- The line of a field, from the start of its first token on. -/
theorem readField {start start' : Nat} (h : Behind R one other)
    (hfield : fieldOf (one.slice (some start) (some (one.split ['\n']).1)) =
      fieldOf (other.slice (some start') (some (other.split ['\n']).1))) :
    SameItem R (Document.readField start one) (Document.readField start' other) := by
  simp only [fieldOf, Text.joined] at hfield
  simp only [Document.readField, hfield]
  split
  · exact .error (by simp only [Failure.untold_map])
  · split
    · exact .ok h.below
    · exact .ok h.below

/-- **One item.** Whatever item a token begins, both readers take it alike. -/
theorem readItem (hR : Unnoticed R) {kind : TokenKind} {word : Text} {offset offset' : Nat}
    (h : Behind R one other)
    (hfield : fieldOf (one.slice (some offset) (some (one.split ['\n']).1)) =
      fieldOf (other.slice (some offset') (some (other.split ['\n']).1))) :
    SameItem R (Document.readItem ⟨kind, word, offset⟩ one)
      (Document.readItem ⟨kind, word, offset'⟩ other) := by
  unfold Document.readItem
  split
  · exact hR.readDefine h
  · split
    · exact hR.readTypedef h.line
    · split
      · exact hR.readEnumeration h.line offset offset'
      · exact readField h hfield

/-- **All items**, by induction over what is left to be read. -/
theorem readItems (hR : Unnoticed R) (h : R one.ahead other.ahead) :
    outcome (Document.readItems one) = outcome (Document.readItems other) := by
  induction hn : one.remaining using Nat.strongRecOn generalizing one other with
  | ind n ih =>
    cases hR.next h with
    | none left right =>
      rw [readItems_of_none left, readItems_of_none right]
    | @some kind word offset offset' behind behind' left right hbehind back field =>
      have hitem : SameItem R (Document.readItem ⟨kind, word, offset⟩ behind)
          (Document.readItem ⟨kind, word, offset'⟩ behind') := hR.readItem hbehind field
      rw [readItems_of_some left, readItems_of_some right]
      generalize hone : Document.readItem ⟨kind, word, offset⟩ behind = read at hitem
      generalize Document.readItem ⟨kind, word, offset'⟩ behind' = read' at hitem
      cases hitem with
      | error same => exact congrArg Except.error same
      | @ok item later later' ahead =>
        have hlt := Nat.lt_of_le_of_lt (remaining_readItem hone) (Cursor.remaining_next left)
        have hothers := ih _ (hn ▸ hlt) ahead rfl
        exact (outcome_map _ _).trans ((congrArg _ hothers).trans (outcome_map _ _).symm)

/-- **Descriptions that differ unnoticed mean the same.** -/
theorem ofText (hR : Unnoticed R) {text text' : Text}
    (h : R (Token.dropGap .between (Text.trimRight text))
      (Token.dropGap .between (Text.trimRight text'))) :
    outcome (Layout.ofText text) = outcome (Layout.ofText text') := by
  have hitems : outcome (Document.read text) = outcome (Document.read text') := hR.readItems h
  rw [Layout.ofText, Layout.ofText, outcome_map, outcome_map]
  exact congrArg (Except.map Layout.ofItems) hitems

end Unnoticed

/-! ## Changes of a text -/

/-- A change of allowed texts that leaves their words as they are, and that can be
made before or after a gap is passed over or a line is cut out. -/
structure Harmless (Allowed : Text → Prop) (change : Text → Text) : Prop where
  piece : ∀ {text part}, Allowed text → part <:+: text → Allowed part
  unquoted : ∀ {text}, Allowed text → text.Unquoted
  nil : change [] = []
  word : ∀ {word} rest, Token.Solid word → change (word ++ rest) = word ++ change rest
  endsWord : ∀ {text}, Token.EndsWord text → Token.EndsWord (change text)
  gap : ∀ {text}, Allowed text →
    Token.dropGap .between (change text) = change (Token.dropGap .between text)
  field : ∀ {word} rest, Token.Solid word →
    fieldOf (word ++ (Cursor.cutLine false (change rest)).1) =
      fieldOf (word ++ (Cursor.cutLine false rest).1)
  below : ∀ rest, (Cursor.cutLine false (change rest)).2 = change (Cursor.cutLine false rest).2

/-- The one text is allowed and has no gap at its front, and the other is the one
changed. -/
structure Changed (Allowed : Text → Prop) (change : Text → Text) (one other : Text) : Prop where
  allowed : Allowed one
  gap : Token.dropGap .between one = one
  changed : other = change one

namespace Harmless

variable {Allowed : Text → Prop} {change : Text → Text}

theorem changed (h : Harmless Allowed change) {text : Text} (htext : Allowed text) :
    Changed Allowed change (Token.dropGap .between text) (Token.dropGap .between (change text)) :=
  ⟨h.piece htext (Token.dropGap_suffix .between text).isInfix, Token.dropGap_dropGap .between text,
    h.gap htext⟩

theorem unnoticed (h : Harmless Allowed change) : Unnoticed (Changed Allowed change) where
  nil := by
    rintro other ⟨-, -, rfl⟩
    exact h.nil
  token := by
    rintro one other ⟨hallowed, hgap, rfl⟩ hne
    obtain ⟨c, tail, rfl⟩ := List.exists_cons_of_ne_nil hne
    obtain ⟨kind, word, rest, hcut, hword, hbegins⟩ :=
      Token.exists_word (h.unquoted hallowed) hgap
    have hrest : Allowed rest := h.piece hallowed (hcut ▸ List.suffix_append word rest).isInfix
    have hbelow : Allowed (Cursor.cutLine false rest).2 :=
      h.piece hrest (Cursor.cutLine_snd_suffix false rest).isInfix
    refine ⟨kind, word, rest, change rest, ?_, ?_, h.changed hrest, (h.field rest hword).symm, ?_⟩
    · rw [hcut]
      exact hbegins rest id
    · rw [hcut, h.word rest hword]
      exact hbegins (change rest) h.endsWord
    · rw [h.below]
      exact h.changed hbelow

/-- **Harmless changes do not change the meaning** of a description. -/
theorem ofText (h : Harmless Allowed change) {text : Text} (htext : Allowed text)
    (htrim : Text.trimRight (change text) = change (Text.trimRight text)) :
    outcome (Layout.ofText (change text)) = outcome (Layout.ofText text) := by
  have htrimmed : Allowed (Text.trimRight text) :=
    h.piece htext (Text.trimRight_isPrefix text).isInfix
  refine (h.unnoticed.ofText ?_).symm
  rw [htrim]
  exact h.changed htrimmed

end Harmless

end Document

end BitLayout
