import BitLayout.Proofs.Cursor.Facing
import BitLayout.Proofs.Document.Reading
import BitLayout.Proofs.Numeral.RoundTrip
import BitLayout.Proofs.Written.Syntax

/-!
# Reading written enumerations

A cursor in front of a written number, member or enumeration reads it and
then faces what is written behind it. The loop over members is carried by
what stands between two of them: a comma and a blank, which the reader of
the next member passes over, or the closing brace. A member without a number
is only told by looking at that, so the cursor steps back to it.
-/

namespace BitLayout

namespace Written

open Token (EndsWord Front)

/-! ## Words -/

/-- A name is read as an identifier, wherever another word does not follow it
without a gap. -/
theorem Identifier.front (name : Identifier) {rest : Text}
    (hrest : EndsWord rest) :
    Front (name.text ++ rest) .identifier name.text rest := by
  rw [← Token.wordKind_of_head name.head]
  exact Front.of_word (Text.ne_nil_of_head name.head) name.word hrest

/-- A name is no operator. -/
theorem Identifier.ne_operator (name : Identifier) {c : Char} (hc : Token.isWordChar c = false) :
    name.text ≠ [c] := by
  intro h
  have hword := List.all_eq_true.mp name.word c (by rw [h]; exact List.mem_singleton_self c)
  rw [hc] at hword
  cases hword

theorem numeral_ne_nil (radix : Radix) (n : Nat) : radix.mark ++ Numeral.digits radix n ≠ [] :=
  List.append_ne_nil_of_right_ne_nil _ Nat.toDigits_ne_nil

theorem all_numeral (radix : Radix) (n : Nat) :
    (radix.mark ++ Numeral.digits radix n).all Token.isWordChar = true := by
  have hall : ∀ d < 16, Token.isWordChar (Nat.digitChar d) = true := by decide
  refine List.all_eq_true.mpr fun c hc => ?_
  rcases Numeral.mem_mark_digits hc with rfl | rfl | ⟨d, hd, rfl⟩
  · rfl
  · rfl
  · exact hall d hd

theorem numeral_front (radix : Radix) (n : Nat) {rest : Text} (hrest : EndsWord rest) :
    Front (radix.mark ++ Numeral.digits radix n ++ rest) .numeric
      (radix.mark ++ Numeral.digits radix n) rest := by
  have hkind : Token.wordKind (radix.mark ++ Numeral.digits radix n) = .numeric := by
    cases radix with
    | bin => rfl
    | oct => rfl
    | hex => rfl
    | dec =>
      obtain ⟨d, tail, hd, hdigits⟩ := Numeral.exists_digits .dec n
      have hall : ∀ d < 10, '0' ≤ Nat.digitChar d ∧ Nat.digitChar d ≤ '9' := by decide
      show Token.wordKind (Numeral.digits .dec n) = .numeric
      rw [hdigits, Token.wordKind, if_pos (hall d hd)]
  rw [← hkind]
  exact Front.of_word (numeral_ne_nil radix n) (all_numeral radix n) hrest

/-! ## Numbers of members -/

theorem readNumber_text {cursor : Cursor} {number : Number} {rest : Text}
    (h : cursor.Faces (' ' :: (number.text ++ rest))) (hrest : EndsWord rest) :
    ∃ later, Enumeration.readNumber cursor = (.ok number.value, later) ∧ later.Faces rest := by
  obtain ⟨radix, value, short⟩ := number
  have hnumeral := numeral_front radix value.natAbs hrest
  have hread : Numeral.read .dec (radix.mark ++ Numeral.digits radix value.natAbs) =
      .ok value.natAbs := Numeral.read_mark_digits (Or.inr rfl) short
  rw [Number.text] at h
  by_cases hneg : value < 0
  · rw [Numeral.render_of_neg hneg] at h
    have hminus : Front (' ' :: '-' :: (radix.mark ++ Numeral.digits radix value.natAbs ++ rest))
        .operator ['-'] (radix.mark ++ Numeral.digits radix value.natAbs ++ rest) :=
      (Front.of_operator (by decide) (by decide)).blank rfl
    obtain ⟨offset, middle, hwant, hmiddle⟩ :=
      h.want_take hminus (w := .text ['-']) (fun _ => rfl)
    obtain ⟨start, later, hnext, hlater, -⟩ := hmiddle.next hnumeral
    refine ⟨later, ?_, hlater⟩
    rw [Enumeration.readNumber_of_numeric (by rw [hwant]; exact hnext), hread, hwant]
    exact congrArg (fun n => (Except.ok n, later)) (show -(value.natAbs : Int) = value by omega)
  · rw [Numeral.render_of_nonneg hneg] at h
    have hdigits := hnumeral.blank (c := ' ') rfl
    have hwant : cursor.want (.text ['-']) = (none, cursor) := by
      refine h.want_leave hdigits fun offset => beq_eq_false_iff_ne.mpr fun heq => ?_
      have hmem : '-' ∈ radix.mark ++ Numeral.digits radix value.natAbs := by
        rw [show radix.mark ++ Numeral.digits radix value.natAbs = ['-'] from heq]
        exact List.mem_singleton_self '-'
      exact (Numeral.visible_mark_digits radix _ '-' hmem).2 rfl
    obtain ⟨start, later, hnext, hlater, -⟩ := h.next hdigits
    refine ⟨later, ?_, hlater⟩
    rw [Enumeration.readNumber_of_numeric (by rw [hwant]; exact hnext), hread, hwant]
    exact congrArg (fun n => (Except.ok n, later)) (show (value.natAbs : Int) = value by omega)

/-! ## Members -/

/-- What stands behind a member: the comma or the brace that ends it. -/
def Member.EndsAt (rest : Text) : Prop :=
  EndsWord rest ∧ ∃ c behind, (c = ',' ∨ c = '}') ∧ Front rest .operator [c] behind

theorem readMemberEnd_text {cursor : Cursor} {member : Member} {rest : Text}
    (h : cursor.Faces (member.numberText ++ rest)) (hrest : Member.EndsAt rest) :
    ∃ later, Enumeration.readMemberEnd member.name.text cursor =
      (.ok (.named member.name.text (member.number?.map Number.value)), later) ∧
        later.Faces rest := by
  obtain ⟨hword, c, behind, hc, hfront⟩ := hrest
  rw [Member.numberText] at h
  rcases hnumber : member.number? with _ | number
  · rw [hnumber] at h
    obtain ⟨offset, later, hnext, -, hback⟩ := h.next hfront
    have hends : [c] = [','] ∨ [c] = ['}'] := by
      rcases hc with rfl | rfl
      · exact Or.inl rfl
      · exact Or.inr rfl
    refine ⟨later.seek offset, ?_, hback⟩
    simp only [Enumeration.readMemberEnd, hnext, if_pos (Or.inr hends)]
    rfl
  · rw [hnumber] at h
    have hequals : Front ([' ', '=', ' '] ++ number.text ++ rest) .operator ['=']
        (' ' :: (number.text ++ rest)) :=
      (Front.of_operator (by decide) (by decide)).blank rfl
    obtain ⟨offset, middle, hnext, hmiddle, -⟩ := h.next hequals
    obtain ⟨later, hread, hlater⟩ := readNumber_text hmiddle hword
    refine ⟨later, ?_, hlater⟩
    simp only [Enumeration.readMemberEnd, hnext, hread]
    rfl

theorem Member.front (member : Member) {rest : Text} (hrest : Member.EndsAt rest) :
    Front (' ' :: (member.text ++ rest)) .identifier member.name.text
      (member.numberText ++ rest) := by
  rw [Member.text, List.append_assoc]
  refine (member.name.front ?_).blank rfl
  rw [Member.numberText]
  rcases member.number? with _ | number
  · exact hrest.1
  · exact EndsWord.of_cons rfl _

/-- A member is read with or without a comma in front of it. -/
theorem readMember_text {cursor : Cursor} {comma : Text} {member : Member} {rest : Text}
    (hcomma : comma = [] ∨ comma = [','])
    (h : cursor.Faces (comma ++ ' ' :: (member.text ++ rest))) (hrest : Member.EndsAt rest) :
    ∃ later, Enumeration.readMember cursor =
      (.ok (.named member.name.text (member.number?.map Number.value)), later) ∧
        later.Faces rest := by
  have hname := member.front hrest
  have hne : member.name.text ≠ [','] := member.name.ne_operator rfl
  obtain ⟨start, hexhaust, hstart⟩ : ∃ start, cursor.exhaust (.text [',']) = (false, start) ∧
      start.Faces (' ' :: (member.text ++ rest)) := by
    rcases hcomma with rfl | rfl
    · exact h.exhaust_leave hname hne
    · obtain ⟨middle, htake, hmiddle⟩ :=
        h.exhaust_take (Front.of_operator (c := ',') (by decide) (by decide))
      rw [htake]
      exact hmiddle.exhaust_leave hname hne
  obtain ⟨offset, middle, hnext, hmiddle, -⟩ := hstart.next hname
  obtain ⟨later, hread, hlater⟩ := readMemberEnd_text hmiddle hrest
  have hbrace : member.name.text ≠ ['}'] := member.name.ne_operator rfl
  refine ⟨later, ?_, hlater⟩
  simp only [Enumeration.readMember, hexhaust, hnext, Token.textOf, if_neg hbrace]
  exact hread

/-- The members behind the first one, each with a comma in front, and the brace
behind all of them. -/
def membersTail (members : List Member) (rest : Text) : Text :=
  (members.flatMap fun member => ',' :: ' ' :: member.text) ++ ' ' :: '}' :: rest

theorem endsAt_membersTail (members : List Member) (rest : Text) :
    Member.EndsAt (membersTail members rest) := by
  cases members with
  | nil =>
    have hbrace : Front ('}' :: rest) .operator ['}'] rest :=
      Front.of_operator (by decide) (by decide)
    exact ⟨EndsWord.of_cons rfl _, '}', rest, Or.inr rfl, hbrace.blank rfl⟩
  | cons member members =>
    exact ⟨EndsWord.of_cons rfl _, ',', _, Or.inl rfl, Front.of_operator (by decide) (by decide)⟩

theorem readMembers_tail {rest : Text} (members : List Member) {before : NameTable}
    {counter : Int} {cursor : Cursor} (h : cursor.Faces (membersTail members rest)) :
    ∃ later, Enumeration.readMembers before counter cursor =
      (.ok (before.insertAll (numbered counter members)), later) ∧ later.Faces rest := by
  induction members generalizing before counter cursor with
  | nil =>
    have hbrace : Front (membersTail [] rest) .operator ['}'] rest :=
      (Front.of_operator (by decide) (by decide)).blank rfl
    obtain ⟨start, hexhaust, hstart⟩ := h.exhaust_leave hbrace (show ['}'] ≠ [','] by decide)
    obtain ⟨offset, later, hnext, hlater, -⟩ := hstart.next hbrace
    refine ⟨later, Enumeration.readMembers_of_last ?_, hlater⟩
    simp only [Enumeration.readMember, hexhaust, hnext, Token.textOf, if_true]
  | cons member members ih =>
    have hface : cursor.Faces
        ([','] ++ ' ' :: (member.text ++ membersTail members rest)) := by
      have heq : membersTail (member :: members) rest =
          [','] ++ ' ' :: (member.text ++ membersTail members rest) := by
        simp [membersTail]
      rw [← heq]
      exact h
    obtain ⟨middle, hread, hmiddle⟩ :=
      readMember_text (Or.inr rfl) hface (endsAt_membersTail members rest)
    obtain ⟨later, hothers, hlater⟩ := ih hmiddle
    refine ⟨later, ?_, hlater⟩
    rw [Enumeration.readMembers_of_named hread, hothers]
    rfl

theorem joinWith_cons (sep piece : Text) (pieces : List Text) :
    Text.joinWith sep (piece :: pieces) = piece ++ pieces.flatMap (sep ++ ·) := by
  induction pieces generalizing piece with
  | nil => exact (List.append_nil piece).symm
  | cons other pieces ih =>
    rw [Text.joinWith, ih, List.flatMap_cons, List.append_assoc, List.append_assoc]
    exact List.cons_ne_nil _ _

/-- The loop over all members, from behind the opening brace on. -/
theorem readMembers_text {cursor : Cursor} {members : List Member} {rest : Text}
    (h : cursor.Faces (Text.joinWith [','] (members.map fun member => ' ' :: member.text) ++
      ' ' :: '}' :: rest)) :
    ∃ later, Enumeration.readMembers ∅ 0 cursor = (.ok (table members), later) ∧
      later.Faces rest := by
  cases members with
  | nil => exact readMembers_tail [] h
  | cons member members =>
    have hface : cursor.Faces ([] ++ ' ' :: (member.text ++ membersTail members rest)) := by
      simpa [joinWith_cons, membersTail, List.flatMap_map] using h
    obtain ⟨middle, hread, hmiddle⟩ :=
      readMember_text (Or.inl rfl) hface (endsAt_membersTail members rest)
    obtain ⟨later, hothers, hlater⟩ := readMembers_tail members hmiddle
    refine ⟨later, ?_, hlater⟩
    rw [Enumeration.readMembers_of_named hread, hothers]
    rfl

theorem block_front (members : List Member) (rest : Text) :
    Front (block members ++ rest) .operator ['{']
      (Text.joinWith [','] (members.map fun member => ' ' :: member.text) ++
        ' ' :: '}' :: rest) := by
  have hbrace : Front ('{' :: (Text.joinWith [',']
      (members.map fun member => ' ' :: member.text) ++ ' ' :: '}' :: rest)) .operator ['{'] _ :=
    Front.of_operator (by decide) (by decide)
  simpa [block] using hbrace.blank (c := ' ') rfl

/-- A tag is read if it is there, and told from the operator behind it. -/
theorem readTag_text {cursor : Cursor} {tag : Option Identifier} {op rest behind : Text}
    (h : cursor.Faces (optional tag ++ rest)) (hfront : Front rest .operator op behind)
    (hrest : EndsWord rest) :
    ∃ later, Enumeration.readTag cursor = (tag.map Identifier.text, later) ∧
      later.Faces rest := by
  rcases tag with _ | name
  · have hwant := h.want_leave hfront (w := .kind (some .identifier)) (fun _ => rfl)
    exact ⟨cursor, by rw [Enumeration.readTag, hwant]; rfl, h⟩
  · have hname : Front (optional (some name) ++ rest) .identifier name.text rest :=
      (name.front hrest).blank (c := ' ') rfl
    obtain ⟨offset, later, hwant, hlater⟩ :=
      h.want_take hname (w := .kind (some .identifier)) (fun _ => rfl)
    exact ⟨later, by rw [Enumeration.readTag, hwant]; rfl, hlater⟩

/-- **Enumerations are read back**, from behind their keyword on. -/
theorem readBody_text {cursor : Cursor} {tag : Option Identifier} {members : List Member}
    {rest : Text} (h : cursor.Faces (optional tag ++ (block members ++ rest))) :
    ∃ later, Enumeration.readBody cursor =
      (.ok ⟨tag.map Identifier.text, table members⟩, later) ∧ later.Faces rest := by
  obtain ⟨start, htag, hstart⟩ :=
    readTag_text h (block_front members rest) (EndsWord.of_cons rfl _)
  obtain ⟨offset, inside, hbrace, hinside, -⟩ := hstart.next (block_front members rest)
  obtain ⟨later, hmembers, hlater⟩ := readMembers_text hinside
  refine ⟨later, ?_, hlater⟩
  simp only [Enumeration.readBody, htag, hbrace, Token.textOf, if_true, hmembers]
  rfl

end Written

end BitLayout
