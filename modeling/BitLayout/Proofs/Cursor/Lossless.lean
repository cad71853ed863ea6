import BitLayout.Proofs.Cursor.Row
import BitLayout.Proofs.Token.Blank

/-!
# Nothing of a text is lost

The tokens of a text, and the gaps before, between and behind them, are all
of the text (`Cursor.Lossless`). Each token is found at its own position and
has the shape that its first character asks for, no two tokens overlap, and
whatever stands between two of them is a gap.

A row of tokens from a place on tiles the text that is left there
(`Token.Tiling`): a gap, a token, and then a tiling of the rest. One token
is one tile (`Cursor.tile_of_next`), and the row is an induction along the
reader's own recursion (`tiling_row`). Positions only add up the lengths of
the tiles before, so all that is said of a text with its tokens is read off
the tiling.
-/

namespace BitLayout

namespace Token

/-- Tokens and gaps that make up a text, which itself begins at a position. -/
inductive Tiling : Nat → Text → List Token → Prop where
  | last {start : Nat} {gap : Text} (h : LastGap gap) : Tiling start gap []
  | token {start : Nat} {gap word rest : Text} {kind : TokenKind} {tokens : List Token}
      (hgap : Gap gap) (hshape : Shape kind word rest)
      (hrest : Tiling (start + gap.length + word.length) rest tokens) :
      Tiling start (gap ++ (word ++ rest)) (⟨kind, word, start + gap.length⟩ :: tokens)

/-- The position behind the last of some tokens; without a token, the one to start from. -/
def stopOf : Nat → List Token → Nat
  | start, [] => start
  | _, token :: tokens => stopOf token.stop tokens

/-! ## What a tiling says -/

section

variable {start : Nat} {text buffer : Text} {tokens : List Token}

/-- The text that begins behind a piece of it. -/
theorem drop_piece {pos : Nat} {piece rest : Text} (h : buffer.drop pos = piece ++ rest) :
    buffer.drop (pos + piece.length) = rest := by
  rw [← List.drop_drop, h, List.drop_left]

theorem length_piece {pos : Nat} {piece rest : Text} (h : buffer.drop pos = piece ++ rest)
    (hpos : pos ≤ buffer.length) : pos + piece.length ≤ buffer.length := by
  have hlength := congrArg List.length h
  rw [List.length_drop, List.length_append] at hlength
  omega

theorem Tiling.start_le (h : Tiling start text tokens) :
    ∀ token ∈ tokens, start ≤ token.offset := by
  induction h with
  | last => exact nofun
  | token hgap hshape _ ih =>
    intro token htoken
    rcases List.mem_cons.mp htoken with rfl | htoken
    · exact Nat.le_add_right _ _
    · have hle := ih token htoken
      omega

theorem Tiling.pairwise (h : Tiling start text tokens) :
    tokens.Pairwise fun earlier later => earlier.stop ≤ later.offset := by
  induction h with
  | last => exact .nil
  | token _ _ hrest ih => exact ih.cons hrest.start_le

/-- Each token stands at its own position, and has its shape there. -/
theorem Tiling.found (h : Tiling start text tokens) (htext : buffer.drop start = text) :
    ∀ token ∈ tokens, ∃ rest,
      buffer.drop token.offset = token.text ++ rest ∧ Shape token.kind token.text rest := by
  induction h with
  | last => exact nofun
  | token hgap hshape _ ih =>
    have hword := drop_piece htext
    intro token htoken
    rcases List.mem_cons.mp htoken with rfl | htoken
    · exact ⟨_, hword, hshape⟩
    · exact ih (drop_piece hword) token htoken

theorem Tiling.gap_before (h : Tiling start text tokens) (htext : buffer.drop start = text)
    {above below : List Token} {token : Token} (htokens : tokens = above ++ token :: below) :
    stopOf start above ≤ token.offset ∧
      Gap ((buffer.take token.offset).drop (stopOf start above)) := by
  induction h generalizing above with
  | last => exact absurd htokens.symm (List.append_ne_nil_of_right_ne_nil above (List.cons_ne_nil _ _))
  | @token start gap word rest kind tokens hgap _ _ ih =>
    cases above with
    | nil =>
      obtain ⟨rfl, -⟩ := List.cons.inj htokens
      refine ⟨Nat.le_add_right _ _, ?_⟩
      rw [stopOf, List.drop_take, htext, Nat.add_sub_cancel_left, List.take_left]
      exact hgap
    | cons first above =>
      obtain ⟨rfl, hothers⟩ := List.cons.inj htokens
      exact ih (drop_piece (drop_piece htext)) hothers

theorem Tiling.gap_last (h : Tiling start text tokens) (htext : buffer.drop start = text)
    (hstart : start ≤ buffer.length) :
    stopOf start tokens ≤ buffer.length ∧ LastGap (buffer.drop (stopOf start tokens)) := by
  induction h with
  | last h => exact ⟨hstart, htext ▸ h⟩
  | token _ _ _ ih =>
    have hword := drop_piece htext
    exact ih (drop_piece hword) (length_piece hword (length_piece htext hstart))

end

end Token

namespace Cursor

open Token (Gap LastGap Shape Tiling stopOf)

/-! ## Tiles -/

/-- One token, with the gap before it. -/
theorem tile_of_next {cursor later : Cursor} {token : Token}
    (h : cursor.next = (some token, later)) :
    ∃ gap rest, cursor.buffer.drop cursor.pos = gap ++ (token.text ++ rest) ∧ Gap gap ∧
      Shape token.kind token.text rest ∧ token.offset = cursor.pos + gap.length ∧
      later.buffer.drop later.pos = rest ∧ later.pos = token.stop ∧ later.ended = false := by
  obtain ⟨c, tail, hahead, hdrop, hlex, rfl⟩ := next_eq_some h
  have hended := not_ended_of_ahead hahead
  rw [ahead_of_drop hended rfl] at hahead
  rcases Token.exists_gap (cursor.buffer.drop cursor.pos) with
    ⟨-, hnil⟩ | ⟨gap, d, others, hgap, htext, hstop⟩
  · cases hahead.symm.trans hnil
  · obtain ⟨rfl, rfl⟩ := List.cons.inj (hahead.symm.trans hstop)
    obtain ⟨rest, hcut, hshape⟩ := Token.shape_lexeme (hstop ▸ Token.dropGap_dropGap .between _)
    have hkind : token.kind = (Token.lexeme c tail).1 := congrArg Prod.fst hlex
    have hword : token.text = (Token.lexeme c tail).2 := congrArg Prod.snd hlex
    rw [← hkind, ← hword] at hshape
    rw [← hword] at hcut
    have hoffset : token.offset = cursor.pos + gap.length := by
      have hlength := congrArg List.length htext
      have hlength' := congrArg List.length hdrop
      simp only [List.length_drop, List.length_append, List.length_cons] at hlength hlength'
      omega
    refine ⟨gap, rest, hcut ▸ htext, hgap, hshape, hoffset, ?_, rfl, hended⟩
    show cursor.buffer.drop (token.offset + token.text.length) = rest
    rw [← List.drop_drop, hdrop, hcut, List.drop_left]

/-- **A row of tokens tiles the text that is left.** -/
theorem tiling_row {cursor : Cursor} (hended : cursor.ended = false) :
    Tiling cursor.pos (cursor.buffer.drop cursor.pos) cursor.row := by
  unfold row
  fun_induction tokens cursor with
  | case1 cursor later hnext =>
    rcases Token.exists_gap (cursor.buffer.drop cursor.pos) with
      ⟨hlast, -⟩ | ⟨gap, c, rest, -, -, hstop⟩
    · exact .last hlast
    · obtain ⟨offset, hsome, -⟩ := next_of_ahead ((ahead_of_drop hended rfl).trans hstop)
      cases (Prod.mk.inj (hsome.symm.trans hnext)).1
  | case2 cursor token later hnext _ others ih =>
    obtain ⟨gap, rest, htext, hgap, hshape, hoffset, hdrop, hpos, hlater⟩ := tile_of_next hnext
    have hrest := ih hlater
    obtain ⟨kind, word, offset⟩ := token
    obtain rfl : offset = cursor.pos + gap.length := hoffset
    rw [hdrop, hpos] at hrest
    rw [htext]
    exact .token hgap hshape hrest

/-! ## The whole text -/

/-- A text is all there in its tokens and the gaps around them. -/
structure Lossless (buffer : Text) (tokens : List Token) : Prop where
  nonempty : ∀ token ∈ tokens, token.text ≠ []
  /-- Each token is the piece of the text at its own position. -/
  piece : ∀ token ∈ tokens, (buffer.drop token.offset).take token.text.length = token.text
  apart : tokens.Pairwise fun earlier later =>
    earlier.offset < later.offset ∧ earlier.stop ≤ later.offset
  /-- What stands before a token, and behind the one before it, is a gap. -/
  gap : ∀ above token below, tokens = above ++ token :: below →
    stopOf 0 above ≤ token.offset ∧ Gap ((buffer.take token.offset).drop (stopOf 0 above))
  last : stopOf 0 tokens ≤ buffer.length ∧ LastGap (buffer.drop (stopOf 0 tokens))
  /-- Kind and extent of a token are told by its first character and by what follows. -/
  shape : ∀ token ∈ tokens, Shape token.kind token.text (buffer.drop token.stop)

theorem lossless_of_tiling {buffer : Text} {tokens : List Token} (h : Tiling 0 buffer tokens) :
    Lossless buffer tokens := by
  have hfound := h.found (rfl : buffer.drop 0 = buffer)
  have hnonempty : ∀ token ∈ tokens, token.text ≠ [] := by
    intro token htoken
    obtain ⟨rest, -, hshape⟩ := hfound token htoken
    exact hshape.ne_nil
  refine ⟨hnonempty, ?_, ?_, ?_, h.gap_last rfl (Nat.zero_le _), ?_⟩
  · intro token htoken
    obtain ⟨rest, hdrop, -⟩ := hfound token htoken
    rw [hdrop, List.take_left]
  · refine h.pairwise.imp_of_mem fun {earlier later} hearlier _ hle => ⟨?_, hle⟩
    have hpos := List.length_pos_of_ne_nil (hnonempty earlier hearlier)
    exact Nat.lt_of_lt_of_le (Nat.lt_add_of_pos_right hpos) hle
  · intro above token below htokens
    exact h.gap_before rfl htokens
  · intro token htoken
    obtain ⟨rest, hdrop, hshape⟩ := hfound token htoken
    rw [Token.stop, Token.drop_piece hdrop]
    exact hshape

/-- **Reading tokens loses nothing of a text**, whatever the text is. -/
theorem lossless_ofText (text : Text) :
    Lossless (Text.trimRight text) (ofText text).tokens.1 :=
  have hended : (ofText text).ended = false := rfl
  have htiling : Tiling 0 (Text.trimRight text) (ofText text).tokens.1 := tiling_row hended
  lossless_of_tiling htiling

end Cursor

end BitLayout
