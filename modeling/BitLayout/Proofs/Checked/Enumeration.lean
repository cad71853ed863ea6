import BitLayout.Proofs.Checked.Numeral
import BitLayout.Proofs.Document.Reading
import BitLayout.Proofs.Table

/-!
# Enumerations by positions

The reader of enumerations as a run. A member goes into the table before
it is known whether it has a number of its own, and then again with that
number; and where the member ends with the start of the next one, the
cursor steps back to that start. So the loop over members moves backwards
in nearly every round. What lies behind the cursor at the start of a round
still gets less, because a round reads the name of a member first.
-/

namespace BitLayout

namespace Checked

open Run

/-! ## The runs -/

/-- Tells a text that is no number as an error of the enumeration; any other
failure stays as it is. -/
def asMemberFault (offset : Nat) : Fault → Fault
  | .numeral (.badDigits radix text) => .enumeration (.badNumber offset (.badDigits radix text))
  | fault => fault

/-- The number that a token spells, and the cursor behind it. -/
def memberNumber (negative : Bool) :
    Option Token × Cursor → Run (Int × Cursor)
  | (some ⟨.numeric, text, offset⟩, later) => do
    let value ← handle (parseNumeral text 10) fun fault => throw (asMemberFault offset fault)
    pure (if negative then -value else value, later)
  | (found, later) => throw (.enumeration (.noNumber later.pos (Token.textOf found)))

/-- Reads the number behind an equals sign. -/
noncomputable def parseMemberValue (cursor : Cursor) : Run (Int × Cursor) := do
  let first ← next cursor
  if Token.textOf first.1 = ['-'] then memberNumber true (← next first.2)
  else memberNumber false first

/-- What the loop over members goes on with: the members, the number of the
next one and the cursor. -/
abbrev MemberState := NameTable × Int × Cursor

/-- Reads what stands behind the name of a member that is already in the
table. -/
noncomputable def parseMemberEnd (members : NameTable) (key : Text) (counter : Int)
    (cursor : Cursor) : Run (MemberState ⊕ (NameTable × Cursor)) := do
  let (found, later) ← next cursor
  match found with
  | none => throw (.enumeration (.badSeparator (Token.offsetOf none) [] key))
  | some token =>
    if (Enumeration.memberName? (some token)).isSome ∨ token.text = [','] then
      pure (.inl (members, counter, later.seek token.offset))
    else if token.text = ['}'] then pure (.inr (members, later))
    else if token.text ≠ ['='] then
      throw (.enumeration (.badSeparator token.offset token.text key))
    else
      let (value, last) ← parseMemberValue later
      pure (.inl (members.insert key value, value + 1, last))

/-- One round of the loop over members. -/
noncomputable def memberRound : MemberState → Run (MemberState ⊕ (NameTable × Cursor))
  | (members, counter, cursor) => do
    let (ended, front) ← exhaust (.text [',']) cursor
    if ended then pure (.inr (members, front))
    else
      let (found, later) ← next front
      if Token.textOf found = ['}'] then pure (.inr (members, later))
      else match Enumeration.memberName? found with
        | none => throw (.enumeration (.noMember (Token.offsetOf found) (Token.textOf found)))
        | some key =>
          parseMemberEnd (members.insert key counter) key (counter + 1) later

/-- Reads the tag, if there is one, and in either case the token behind it. -/
noncomputable def parseTag (cursor : Cursor) : Run (Option Text × Option Token × Cursor) := do
  let first ← next cursor
  if Token.kind? first.1 = some .identifier then
    let second ← next first.2
    pure (some (Token.textOf first.1), second)
  else pure (none, first)

/-- Reads an enumeration: its members, and its tag if it has one. -/
noncomputable def parseEnum (cursor : Cursor) :
    Run ((NameTable × Option Text) × Cursor) := do
  let (keyword?, later) ← want (.text Enumeration.keyword) cursor
  if keyword?.isNone then throw (.enumeration (.noKeyword later.pos))
  let (tag, brace, front) ← parseTag later
  if Token.textOf brace ≠ ['{'] then
    throw (.enumeration (.noBrace (Token.offsetOf brace) (Token.textOf brace)))
  let (members, last) ← loop memberRound (∅, 0, front)
  pure ((members, tag), last)

/-! ## Numbers of members -/

/-- A reading of the total reader as the end of a run. -/
def outcome {α : Type} (read : Except (Failure EnumError) α × Cursor) :
    Except Fault (α × Cursor) :=
  match read with
  | (.ok answer, later) => .ok (answer, later)
  | (.error e, _) => .error (.ofFailure .enumeration e)

theorem handle_parseNumeral (text : Text) (offset : Nat) :
    (handle (parseNumeral text 10) fun fault => throw (asMemberFault offset fault)) =
      settled ((Numeral.read .dec text).mapError
        (.ofFailure fun e => .enumeration (.badNumber offset e))) := by
  have hparse : Numeral.parse text 10 = Numeral.read .dec text := rfl
  rw [parseNumeral_eq, hparse]
  rcases hread : Numeral.read .dec text with (e | _) | n
  · obtain ⟨radix, rfl⟩ := Numeral.badDigits_of_read hread
    rfl
  · rfl
  · rfl

theorem memberNumber_of_other {negative : Bool} {found : Option Token}
    {later : Cursor} (hother : Token.kind? found ≠ some .numeric) :
    memberNumber negative (found, later) =
      settled (.error (.enumeration (.noNumber later.pos (Token.textOf found)))) := by
  rw [memberNumber]
  · rfl
  · rintro text offset rfl
    exact hother rfl

/-- Reading the number behind a cursor at which a minus sign was read or looked
for in vain. -/
theorem memberNumber_eq (cursor : Cursor) :
    memberNumber (cursor.want (.text ['-'])).1.isSome (cursor.want (.text ['-'])).2.next =
      settled (outcome (Enumeration.readNumber cursor)) := by
  rcases hnext : (cursor.want (.text ['-'])).2.next with ⟨found, later⟩
  by_cases hnumeric : Token.kind? found = some .numeric
  · rcases found with _ | ⟨kind, text, offset⟩
    · cases hnumeric
    · obtain rfl : kind = .numeric := Option.some.inj hnumeric
      rw [memberNumber, handle_parseNumeral, Enumeration.readNumber_of_numeric hnext]
      rcases Numeral.read .dec text with (_ | _) | _ <;> rfl
  · rw [memberNumber_of_other hnumeric, Enumeration.readNumber_of_other hnext hnumeric]
    rfl

theorem parseMemberValue_eq (cursor : Cursor) :
    parseMemberValue cursor = settled (outcome (Enumeration.readNumber cursor)) := by
  rw [← memberNumber_eq, parseMemberValue, next_eq, settled_ok_bind, Cursor.want]
  by_cases hminus : Token.textOf cursor.next.1 = ['-']
  · have haccepts : Want.accepts (.text ['-']) cursor.next.1 = true := beq_iff_eq.mpr hminus
    simp only [if_pos hminus, haccepts, if_true, next_eq, settled_ok_bind]
    rfl
  · have haccepts : Want.accepts (.text ['-']) cursor.next.1 = false := by
      rw [Bool.eq_false_iff]
      exact fun heq => hminus (beq_iff_eq.mp heq)
    simp only [if_neg hminus, haccepts, Bool.false_eq_true, if_false]
    rfl

/-! ## Members -/

/-- A round does what the total reader finds at the place of the next
member. A closing brace behind a name ends the loop in the same round,
where the total reader finds it in the round after. -/
def RoundFits (members : NameTable) (counter : Int)
    (read : Except (Failure EnumError) Enumeration.Member × Cursor)
    (round : Run (MemberState ⊕ (NameTable × Cursor))) : Prop :=
  match read with
  | (.error e, _) => round = settled (.error (.ofFailure .enumeration e))
  | (.ok .last, later) => round = settled (.ok (.inr (members, later)))
  | (.ok (.named name value?), later) =>
    round = settled (.ok (.inl (members.insert name (value?.getD counter),
      value?.getD counter + 1, later))) ∨
    ∃ last, Enumeration.readMember later = (.ok .last, last) ∧
      round = settled (.ok (.inr (members.insert name (value?.getD counter), last)))

theorem parseMemberEnd_fits (cursor : Cursor) (members : NameTable) (key : Text) (counter : Int) :
    RoundFits members counter (Enumeration.readMemberEnd key cursor)
      (parseMemberEnd (members.insert key counter) key (counter + 1) cursor) := by
  unfold parseMemberEnd Enumeration.readMemberEnd
  rw [next_eq, settled_ok_bind]
  cases hnext : cursor.next with
  | mk found later =>
    cases found with
    | none => exact rfl
    | some token =>
      dsimp only
      by_cases hname : (Enumeration.memberName? (some token)).isSome ∨ token.text = [',']
      · rw [if_pos hname, if_pos (hname.imp id Or.inl)]
        exact Or.inl rfl
      · rw [if_neg hname]
        by_cases hbrace : token.text = ['}']
        · rw [if_pos hbrace, if_pos (Or.inr (Or.inr hbrace))]
          exact Or.inr ⟨later, Enumeration.readMember_seek_brace hnext hbrace, rfl⟩
        · rw [if_neg hbrace, if_neg (by rw [← or_assoc]; exact not_or.mpr ⟨hname, hbrace⟩)]
          by_cases hequals : token.text = ['=']
          · rw [if_neg (not_not.mpr hequals), if_pos hequals,
              parseMemberValue_eq]
            cases hnumber : Enumeration.readNumber later with
            | mk result last =>
              cases result with
              | error e => exact rfl
              | ok value =>
                refine Or.inl ?_
                simp only [outcome, settled_ok_bind, Table.insert_insert]
                rfl
          · rw [if_pos hequals, if_neg hequals]
            exact rfl

theorem memberRound_fits (cursor : Cursor) (members : NameTable) (counter : Int) :
    RoundFits members counter (Enumeration.readMember cursor)
      (memberRound (members, counter, cursor)) := by
  unfold memberRound Enumeration.readMember
  simp only [exhaust_eq, settled_ok_bind]
  rcases hexhaust : cursor.exhaust (.text [',']) with ⟨_ | _, front⟩
  · simp only [Bool.false_eq_true, if_false, next_eq, settled_ok_bind]
    by_cases hbrace : Token.textOf front.next.1 = ['}']
    · rw [if_pos hbrace, if_pos hbrace]
      exact rfl
    · rw [if_neg hbrace, if_neg hbrace]
      cases Enumeration.memberName? front.next.1 with
      | none => exact rfl
      | some key => exact parseMemberEnd_fits _ members key counter
  · exact rfl

/-- The loop over members, whose rank is what lies behind the cursor. -/
theorem parseMembers_eq (members : NameTable) (counter : Int) (cursor : Cursor) :
    loop memberRound (members, counter, cursor) =
      settled (outcome (Enumeration.readMembers members counter cursor)) := by
  refine loop_eq (fun _ : MemberState => True) (fun s => s.2.2.remaining)
    (s := (members, counter, cursor))
    (r := fun s => outcome (Enumeration.readMembers s.1 s.2.1 s.2.2)) ?_ trivial
  rintro ⟨members, counter, cursor⟩ -
  have hfits := memberRound_fits cursor members counter
  cases hread : Enumeration.readMember cursor with
  | mk result later =>
    rw [hread] at hfits
    match result with
    | .error e =>
      refine Or.inr (Or.inr ⟨.ofFailure .enumeration e, hfits, ?_⟩)
      simp only [Enumeration.readMembers_of_error hread]
      rfl
    | .ok .last =>
      refine Or.inr (Or.inl ⟨(members, later), hfits, ?_⟩)
      simp only [Enumeration.readMembers_of_last hread]
      rfl
    | .ok (.named name value?) =>
      rcases hfits with hround | ⟨last, hlast, hround⟩
      · refine Or.inl ⟨_, hround, trivial, Enumeration.remaining_readMember hread, ?_⟩
        simp only [Enumeration.readMembers_of_named hread]
      · refine Or.inr (Or.inl ⟨_, hround, ?_⟩)
        simp only [Enumeration.readMembers_of_named hread, Enumeration.readMembers_of_last hlast]
        rfl

theorem parseTag_eq (cursor : Cursor) :
    parseTag cursor =
      settled (.ok ((Enumeration.readTag cursor).1, (Enumeration.readTag cursor).2.next)) := by
  unfold parseTag Enumeration.readTag Cursor.want
  simp only [next_eq, settled_ok_bind]
  by_cases htag : Token.kind? cursor.next.1 = some .identifier
  · have haccepts : Want.accepts (.kind (some .identifier)) cursor.next.1 = true :=
      beq_iff_eq.mpr htag
    rw [if_pos htag, haccepts]
    rfl
  · have haccepts : Want.accepts (.kind (some .identifier)) cursor.next.1 = false := by
      rw [Bool.eq_false_iff]
      exact fun heq => htag (beq_iff_eq.mp heq)
    rw [if_neg htag, haccepts]
    rfl

theorem parseEnum_eq (cursor : Cursor) :
    parseEnum cursor =
      settled ((outcome (Enumeration.read cursor)).map fun read =>
        ((read.1.members, read.1.name), read.2)) := by
  unfold parseEnum Enumeration.read
  simp only [want_eq, settled_ok_bind]
  rcases hkeyword : cursor.want (.text Enumeration.keyword) with ⟨_ | found, later⟩
  · exact rfl
  · unfold Enumeration.readBody
    simp only [Option.isNone_some, Bool.false_eq_true, if_false, parseTag_eq, settled_ok_bind]
    by_cases hbrace : Token.textOf (Enumeration.readTag later).2.next.1 = ['{']
    · rw [if_pos hbrace, if_neg (not_not.mpr hbrace), parseMembers_eq]
      rcases Enumeration.readMembers ∅ 0 (Enumeration.readTag later).2.next.2 with ⟨_ | _, last⟩
      · rfl
      · rfl
    · rw [if_neg hbrace, if_pos hbrace]
      rfl

end Checked

end BitLayout
