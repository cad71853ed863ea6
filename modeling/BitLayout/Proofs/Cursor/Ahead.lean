import BitLayout.Cursor
import BitLayout.Proofs.Token.Gap

/-!
# What lies ahead of a cursor

The text from the next token on, `Cursor.ahead`, is all that reading a
token depends on: the token is the lexeme at its front (`next_of_ahead`),
and where the cursor stands in the gap before it makes no difference. So a
cursor may step back to the start of a token that it has read, and the
same token is read again (`next_seek_offset`).

A token is a piece of the text and is never moved: `drop_offset` finds it
at its own position.
-/

namespace BitLayout

/-- A piece at the end of a text is found by its length. -/
theorem Text.drop_of_suffix {buffer piece : Text} {pos : Nat} (h : piece <:+ buffer.drop pos) :
    buffer.drop (pos + ((buffer.drop pos).length - piece.length)) = piece := by
  obtain ⟨front, hfront⟩ := h
  rw [← List.drop_drop, ← hfront, List.length_append, Nat.add_sub_cancel, List.drop_left]

namespace Cursor

@[simp] theorem seek_buffer (cursor : Cursor) (pos : Nat) :
    (cursor.seek pos).buffer = cursor.buffer := rfl

@[simp] theorem seek_ended (cursor : Cursor) (pos : Nat) :
    (cursor.seek pos).ended = cursor.ended := rfl

@[simp] theorem seek_pos (cursor : Cursor) (pos : Nat) : (cursor.seek pos).pos = pos := rfl

@[simp] theorem seek_seek (cursor : Cursor) (pos other : Nat) :
    (cursor.seek pos).seek other = cursor.seek other := rfl

@[simp] theorem finish_buffer (cursor : Cursor) : cursor.finish.buffer = cursor.buffer := rfl

@[simp] theorem finish_ended (cursor : Cursor) : cursor.finish.ended = true := rfl

/-- The text from the next token on; none, where there is no further token. -/
def ahead (cursor : Cursor) : Text :=
  if cursor.ended then [] else Token.dropGap .between (cursor.buffer.drop cursor.pos)

theorem ahead_of_ended {cursor : Cursor} (h : cursor.ended = true) : cursor.ahead = [] := by
  rw [ahead, if_pos h]

theorem ahead_of_drop {cursor : Cursor} {text : Text} (hended : cursor.ended = false)
    (h : cursor.buffer.drop cursor.pos = text) :
    cursor.ahead = Token.dropGap .between text := by
  rw [ahead, hended, h]
  rfl

theorem not_ended_of_ahead {cursor : Cursor} {c : Char} {rest : Text}
    (h : cursor.ahead = c :: rest) : cursor.ended = false := by
  cases hended : cursor.ended with
  | false => rfl
  | true =>
    rw [ahead_of_ended hended] at h
    cases h

/-- Reading a token takes the lexeme at the front of what lies ahead. -/
theorem next_of_ahead {cursor : Cursor} {c : Char} {rest : Text} (h : cursor.ahead = c :: rest) :
    ∃ offset,
      cursor.next = (some ⟨(Token.lexeme c rest).1, (Token.lexeme c rest).2, offset⟩,
        cursor.seek (offset + (Token.lexeme c rest).2.length)) ∧
      cursor.buffer.drop offset = c :: rest := by
  have hended := not_ended_of_ahead h
  rw [ahead_of_drop hended rfl] at h
  have hsuffix : (c :: rest) <:+ cursor.buffer.drop cursor.pos :=
    h ▸ Token.dropGap_suffix .between _
  refine ⟨_, ?_, Text.drop_of_suffix hsuffix⟩
  rw [next, next?, hended, Token.first?_of_gap h]
  rfl

theorem next_of_ahead_nil {cursor : Cursor} (h : cursor.ahead = []) :
    cursor.next.1 = none ∧ cursor.next.2.ended = true := by
  cases hended : cursor.ended with
  | true => rw [next, hended]; exact ⟨rfl, hended⟩
  | false =>
    rw [ahead_of_drop hended rfl] at h
    rw [next, next?, hended, Token.first?_of_gap_nil h]
    exact ⟨rfl, rfl⟩

/-- What is known of a token that was read. -/
theorem next_eq_some {cursor later : Cursor} {token : Token}
    (h : cursor.next = (some token, later)) :
    ∃ c rest, cursor.ahead = c :: rest ∧ cursor.buffer.drop token.offset = c :: rest ∧
      (token.kind, token.text) = Token.lexeme c rest ∧ later = cursor.seek token.stop := by
  cases hahead : cursor.ahead with
  | nil =>
    have := (next_of_ahead_nil hahead).1
    rw [h] at this
    cases this
  | cons c rest =>
    obtain ⟨offset, hnext, hdrop⟩ := next_of_ahead hahead
    obtain ⟨htoken, hlater⟩ := Prod.mk.inj (hnext.symm.trans h)
    obtain rfl := Option.some.inj htoken
    exact ⟨c, rest, rfl, hdrop, rfl, hlater.symm⟩

@[simp] theorem next_buffer (cursor : Cursor) : cursor.next.2.buffer = cursor.buffer := by
  cases hnext : cursor.next with
  | mk found later =>
    cases found with
    | some token =>
      obtain ⟨_, _, _, _, _, rfl⟩ := next_eq_some hnext
      rfl
    | none =>
      unfold next at hnext
      split at hnext
      · cases hnext; rfl
      · split at hnext <;> cases hnext
        rfl

theorem isInfix_text {cursor later : Cursor} {token : Token}
    (h : cursor.next = (some token, later)) : token.text <:+: cursor.buffer := by
  obtain ⟨c, rest, -, hdrop, hlex, -⟩ := next_eq_some h
  have htext : token.text = (Token.lexeme c rest).2 := congrArg Prod.snd hlex
  have hprefix : token.text <+: cursor.buffer.drop token.offset := by
    rw [hdrop, htext]
    exact Token.isPrefix_lexeme c rest
  exact hprefix.isInfix.trans (List.drop_suffix _ _).isInfix

/-- Stepping back to the start of a token puts it ahead again. -/
theorem ahead_seek_offset {cursor later : Cursor} {token : Token}
    (h : cursor.next = (some token, later)) : (later.seek token.offset).ahead = cursor.ahead := by
  obtain ⟨c, rest, hahead, hdrop, -, rfl⟩ := next_eq_some h
  have hended := not_ended_of_ahead hahead
  rw [ahead_of_drop (by exact hended) rfl, seek_seek, seek_buffer, seek_pos, hdrop, hahead]
  rw [ahead_of_drop hended rfl] at hahead
  rw [← hahead, Token.dropGap_dropGap]

/-- **Reading again.** A cursor that steps back to the start of the token it
has just read reads the same token again. -/
theorem next_seek_offset {cursor later : Cursor} {token : Token}
    (h : cursor.next = (some token, later)) :
    (later.seek token.offset).next = (some token, later) := by
  have hagain := ahead_seek_offset h
  obtain ⟨c, rest, hahead, hdrop, hlex, rfl⟩ := next_eq_some h
  rw [hahead] at hagain
  obtain ⟨offset, hnext, hdrop'⟩ := next_of_ahead hagain
  have hoffset : offset = token.offset := by
    have hlen := congrArg List.length (hdrop'.trans hdrop.symm)
    have hlt := congrArg List.length hdrop
    have hlt' := congrArg List.length hdrop'
    simp only [List.length_drop, List.length_cons, seek_buffer] at hlen hlt hlt'
    omega
  obtain ⟨kind, text, start⟩ := token
  obtain ⟨rfl, rfl⟩ := Prod.mk.inj hlex
  rw [seek_seek] at hnext ⊢
  rw [hnext, hoffset]
  rfl

/-! ## Rows of tokens -/

theorem exhaust_of_next_none {w : Want} {cursor later : Cursor}
    (h : cursor.next = (none, later)) : cursor.exhaust w = (true, later) := by
  rw [exhaust]
  split
  · next hnext => rw [(Prod.mk.inj (hnext.symm.trans h)).2]
  · next hnext => cases (Prod.mk.inj (hnext.symm.trans h)).1

theorem exhaust_of_next_some {w : Want} {cursor later : Cursor} {token : Token}
    (h : cursor.next = (some token, later)) :
    cursor.exhaust w =
      if w.accepts (some token) then later.exhaust w else (false, later.seek token.offset) := by
  rw [exhaust]
  split
  · next hnext => cases (Prod.mk.inj (hnext.symm.trans h)).1
  · next hnext =>
    obtain ⟨htoken, rfl⟩ := Prod.mk.inj (hnext.symm.trans h)
    obtain rfl := Option.some.inj htoken
    rfl

/-! ## Cutting out -/

theorem slice_natCast (cursor : Cursor) (start stop : Nat) :
    cursor.slice (some start) (some stop) = (cursor.buffer.take stop).drop start := by
  have hbound : ∀ n : Nat, bound cursor.buffer.length n = min n cursor.buffer.length := by
    intro n
    rw [bound, if_neg (by omega), Int.toNat_natCast]
  simp only [slice, Option.map_some, Option.getD_some, hbound]
  rw [← List.take_eq_take_min]
  by_cases hstart : start ≤ cursor.buffer.length
  · rw [Nat.min_eq_left hstart]
  · rw [Nat.min_eq_right (by omega), List.drop_of_length_le, List.drop_of_length_le]
    · exact Nat.le_trans (List.length_take_le' _ _) (by omega)
    · exact List.length_take_le' _ _

theorem slice_of_drop {cursor : Cursor} {offset : Nat} {piece rest : Text}
    (h : cursor.buffer.drop offset = piece ++ rest) :
    cursor.slice (some offset) (some (offset + piece.length : Nat)) = piece := by
  rw [slice_natCast, List.drop_take, h, Nat.add_sub_cancel_left, List.take_left]

/-! ## The text stays -/

@[simp] theorem exhaust_buffer (w : Want) (cursor : Cursor) :
    (cursor.exhaust w).2.buffer = cursor.buffer := by
  fun_induction exhaust w cursor with
  | case1 cursor later hnext => rw [← next_buffer cursor, hnext]
  | case2 cursor token later hnext _ _ ih => rw [ih, ← next_buffer cursor, hnext]
  | case3 cursor token later hnext => rw [← next_buffer cursor, hnext, seek_buffer]

@[simp] theorem want_buffer (w : Want) (cursor : Cursor) :
    (cursor.want w).2.buffer = cursor.buffer := by
  simp only [want]
  split
  · exact next_buffer cursor
  · rfl

@[simp] theorem matchAll_buffer (wants : List Want) (cursor : Cursor) :
    (cursor.matchAll wants).2.buffer = cursor.buffer := by
  have hmatched : ∀ (wants : List Want) (cursor last : Cursor),
      (matchedTexts wants cursor).2 = some last → last.buffer = cursor.buffer := by
    intro wants
    induction wants with
    | nil => rintro cursor last ⟨⟩; rfl
    | cons w wants ih =>
      intro cursor last h
      simp only [matchedTexts] at h
      split at h
      · rw [ih _ _ h, next_buffer]
      · cases h
  rw [matchAll]
  cases h : (matchedTexts wants cursor).2 with
  | none => rfl
  | some last => exact hmatched wants cursor last h

@[simp] theorem split_buffer (delim : Text) (cursor : Cursor) :
    (cursor.split delim).2.buffer = cursor.buffer := by
  unfold split
  split <;> rfl

end Cursor

end BitLayout
