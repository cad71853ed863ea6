import BitLayout.Document
import BitLayout.Proofs.Cursor.Ahead

/-!
# Reading items, step by step

The loops over the members of an enumeration and over the items of a
description as equations, one for each thing that can stand at the place
of a member or an item; and what no reader touches, the text.
-/

namespace BitLayout

namespace Enumeration

/-! ## The number of a member -/

theorem readNumber_of_numeric {cursor later : Cursor} {text : Text} {offset : Nat}
    (h : (cursor.want (.text ['-'])).2.next = (some ⟨.numeric, text, offset⟩, later)) :
    readNumber cursor =
      (((Numeral.read .dec text).map fun n =>
        if (cursor.want (.text ['-'])).1.isSome then -n else n).mapError
          (Failure.map (.badNumber offset)),
        later) := by
  simp only [readNumber, h]
  cases Numeral.read .dec text <;> rfl

theorem readNumber_of_other {cursor later : Cursor} {found : Option Token}
    (h : (cursor.want (.text ['-'])).2.next = (found, later))
    (hother : Token.kind? found ≠ some .numeric) :
    readNumber cursor = (.error (.refused (.noNumber later.pos (Token.textOf found))), later) := by
  rw [readNumber]
  split
  · next text offset behind hnext =>
    obtain ⟨rfl, -⟩ := Prod.mk.inj (h.symm.trans hnext)
    exact absurd rfl hother
  · next other behind _ hnext =>
    obtain ⟨rfl, rfl⟩ := Prod.mk.inj (h.symm.trans hnext)
    rfl

/-! ## One round of the loop over members -/

theorem readMembers_of_error {members : NameTable} {counter : Int} {cursor later : Cursor}
    {e : Failure EnumError} (h : readMember cursor = (.error e, later)) :
    readMembers members counter cursor = (.error e, later) := by
  rw [readMembers]
  split <;> rename_i hread <;> cases hread.symm.trans h
  rfl

theorem readMembers_of_last {members : NameTable} {counter : Int} {cursor later : Cursor}
    (h : readMember cursor = (.ok .last, later)) :
    readMembers members counter cursor = (.ok members, later) := by
  rw [readMembers]
  split <;> rename_i hread <;> cases hread.symm.trans h
  rfl

theorem readMembers_of_named {members : NameTable} {counter : Int} {cursor later : Cursor}
    {name : Text} {value? : Option Int}
    (h : readMember cursor = (.ok (.named name value?), later)) :
    readMembers members counter cursor =
      readMembers (members.insert name (value?.getD counter)) (value?.getD counter + 1) later := by
  rw [readMembers]
  split <;> rename_i hread <;> cases hread.symm.trans h
  rfl

/-- A closing brace that was read and stepped back to ends the loop. -/
theorem readMember_seek_brace {cursor later : Cursor} {token : Token}
    (h : cursor.next = (some token, later)) (hbrace : token.text = ['}']) :
    readMember (later.seek token.offset) = (.ok .last, later) := by
  have hagain := Cursor.next_seek_offset h
  have hcomma : Want.accepts (.text [',']) (some token) = false := by
    show (token.text == [',']) = false
    rw [hbrace]
    rfl
  have hexhaust : (later.seek token.offset).exhaust (.text [',']) =
      (false, later.seek token.offset) := by
    rw [Cursor.exhaust_of_next_some hagain, hcomma]
    rfl
  simp only [readMember, hexhaust, hagain, Token.textOf, hbrace, if_true]

/-! ## The text stays -/

@[simp] theorem readNumber_buffer (cursor : Cursor) :
    (readNumber cursor).2.buffer = cursor.buffer := by
  have hnext := Cursor.next_buffer (cursor.want (.text ['-'])).2
  rw [Cursor.want_buffer] at hnext
  unfold readNumber
  dsimp only
  split
  · next h =>
    rw [h] at hnext
    split <;> exact hnext
  · next h =>
    rw [h] at hnext
    exact hnext

@[simp] theorem readMemberEnd_buffer (name : Text) (cursor : Cursor) :
    (readMemberEnd name cursor).2.buffer = cursor.buffer := by
  have hnext := Cursor.next_buffer cursor
  unfold readMemberEnd
  split
  · next h =>
    rw [h] at hnext
    exact hnext
  · next h =>
    rw [h] at hnext
    split
    · exact hnext
    · split
      · exact (readNumber_buffer _).trans hnext
      · exact hnext

@[simp] theorem readMember_buffer (cursor : Cursor) :
    (readMember cursor).2.buffer = cursor.buffer := by
  have hexhaust := Cursor.exhaust_buffer (.text [',']) cursor
  unfold readMember
  split
  · next h =>
    rw [h] at hexhaust
    exact hexhaust
  · next front h =>
    rw [h] at hexhaust
    have hnext := (Cursor.next_buffer front).trans hexhaust
    dsimp only
    split
    · exact hnext
    · split
      · exact (readMemberEnd_buffer _ _).trans hnext
      · exact hnext

@[simp] theorem readMembers_buffer (members : NameTable) (counter : Int) (cursor : Cursor) :
    (readMembers members counter cursor).2.buffer = cursor.buffer := by
  fun_induction readMembers members counter cursor with
  | case1 members counter cursor e later h => rw [← readMember_buffer cursor, h]
  | case2 members counter cursor later h => rw [← readMember_buffer cursor, h]
  | case3 members counter cursor name value? later h _ _ ih =>
    rw [ih, ← readMember_buffer cursor, h]

@[simp] theorem readTag_buffer (cursor : Cursor) :
    (readTag cursor).2.buffer = cursor.buffer := by
  have hwant := Cursor.want_buffer (.kind (some .identifier)) cursor
  unfold readTag
  split <;> next h => rw [h] at hwant; exact hwant

@[simp] theorem readBody_buffer (cursor : Cursor) :
    (readBody cursor).2.buffer = cursor.buffer := by
  unfold readBody
  dsimp only
  split <;> simp

@[simp] theorem read_buffer (cursor : Cursor) : (read cursor).2.buffer = cursor.buffer := by
  have hwant := Cursor.want_buffer (.text keyword) cursor
  unfold read
  split
  · next h =>
    rw [h] at hwant
    exact hwant
  · next h =>
    rw [h] at hwant
    exact (readBody_buffer _).trans hwant

end Enumeration

namespace Document

/-! ## One round of the loop over items -/

theorem readItems_of_none {cursor later : Cursor} (h : cursor.next = (none, later)) :
    readItems cursor = .ok [] := by
  rw [readItems]
  split <;> rename_i hnext <;> cases hnext.symm.trans h
  rfl

theorem readItems_of_some {cursor behind : Cursor} {token : Token}
    (h : cursor.next = (some token, behind)) :
    readItems cursor = match readItem token behind with
      | .error e => .error e
      | .ok (item, later) => (readItems later).map (item :: ·) := by
  rw [readItems]
  split <;> rename_i hnext <;> cases hnext.symm.trans h
  split <;> rename_i hitem <;> simp only [hitem]

/-- Any other token begins the line of a field. -/
theorem readItem_of_field {word : Text} (h : word ∉ Field.directives) (kind : TokenKind)
    (offset : Nat) (cursor : Cursor) :
    readItem ⟨kind, word, offset⟩ cursor = readField offset cursor := by
  simp only [Field.directives, List.mem_cons, List.not_mem_nil, or_false, not_or] at h
  obtain ⟨hmark, hkeyword, htypedef⟩ := h
  have henum : ¬ word = Enumeration.keyword := hkeyword
  rw [readItem, if_neg hmark, if_neg htypedef, if_neg henum]

/-- Reading a definition from its keyword on is reading it behind the keyword. -/
theorem read_seek_keyword {cursor later : Cursor} {token : Token}
    (h : cursor.next = (some token, later)) (hkeyword : token.text = Enumeration.keyword) :
    Enumeration.read (later.seek token.offset) = Enumeration.readBody later := by
  have haccepts : Want.accepts (.text Enumeration.keyword) (some token) = true :=
    beq_iff_eq.mpr hkeyword
  simp only [Enumeration.read, Cursor.want, Cursor.next_seek_offset h, haccepts, if_true]

theorem readItem_buffer {token : Token} {cursor later : Cursor} {item : Item}
    (h : readItem token cursor = .ok (item, later)) : later.buffer = cursor.buffer := by
  unfold readItem at h
  split at h
  · simp only [readDefine] at h
    split at h
    · split at h <;> cases h
      simp
    · cases h
  · split at h
    · have hread := Enumeration.read_buffer cursor
      unfold readTypedef at h
      split at h
      · next hdefinition =>
        cases h
        rw [hdefinition] at hread
        simpa [skipSemicolons] using hread
      · cases h
    · split at h
      · have hbody := Enumeration.readBody_buffer cursor
        unfold readEnumeration at h
        split at h
        · next hdefinition =>
          cases h
          rw [hdefinition] at hbody
          simpa [skipSemicolons] using hbody
        · cases h
      · simp only [readField] at h
        split at h
        · cases h
        · split at h <;> cases h <;> exact Cursor.split_buffer _ _

end Document

end BitLayout
