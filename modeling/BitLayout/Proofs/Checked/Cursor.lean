import BitLayout.Proofs.Checked.Run
import BitLayout.Proofs.Cursor.Ahead

/-!
# Reading tokens by positions

The operations of a cursor as runs. Each looks at the text one character
at a time, moves the position forwards and, where it finds what it was not
looking for, backwards; a backslash at the end of the text takes the
position past the end. Every one of them comes to an end with the answer
that the total operation gives, whatever the text and the position.

The loops are four: over a run of characters (`skipWhile`), over the parts
of a gap (`skipGap`), over a literal (`literalEnd`) and over the line feeds
behind a backslash (`splitLine`); and one over tokens (`exhaust`), whose
step back to the start of a token loses nothing, since the token that is
left there is the last one looked at.
-/

namespace BitLayout

namespace Checked

open Run

/-! ## The runs -/

/-- The first place, from a position on, with a character of another sort. -/
noncomputable def skipWhile (sort : Char → Bool) (text : Text) (pos : Nat) : Run Nat :=
  loop (fun i =>
    if i < text.length then do
      let c ← charAt text i
      pure (if sort c then .inl (i + 1) else .inr i)
    else pure (.inr i)) pos

/-- The place behind a comment that begins at a position, or the position
itself where none does; nothing, if the comment is not closed. -/
def skipComment (opening closing text : Text) (pos : Nat) : Option Nat :=
  if startsAt text opening pos then
    (findFrom? text closing (pos + opening.length)).map (· + closing.length)
  else some pos

/-- What one round of skipping a gap does behind the blanks. -/
def skipMarks (text : Text) (pos : Nat) : Option Nat := do
  let behind := if startsAt text ['\\'] pos then pos + 2 else pos
  skipComment ['/', '*'] ['*', '/'] text (← skipComment ['/', '/'] ['\n'] text behind)

noncomputable def skipGap (text : Text) (pos : Nat) : Run (Option Nat) :=
  loop (fun old => do
    let start ← skipWhile Token.isBlank text old
    match skipMarks text start with
    | none => pure (.inr none)
    | some behind =>
      pure (if behind = old then .inr (if behind < text.length then some behind else none)
        else .inl behind)) pos

/-- The place behind the literal whose quote stands at a position. -/
noncomputable def literalEnd (text : Text) (quote : Char) (pos : Nat) : Run Nat :=
  loop (fun i =>
    if i < text.length then do
      let c ← charAt text i
      pure (if c = '\\' then .inl (i + 2) else if c = quote then .inr (i + 1) else .inl (i + 1))
    else pure (.inr text.length)) (pos + 1)

noncomputable def tokenEnd (text : Text) (c : Char) (pos : Nat) : Run Nat :=
  if c = '"' ∨ c = '\'' then literalEnd text c pos
  else if c ∈ Token.operators then pure (pos + 1)
  else skipWhile Token.isWordChar text (pos + 1)

def kindOf (c : Char) : TokenKind :=
  if c = '"' then .string
  else if c = '\'' then .char
  else if c ∈ Token.operators then .operator
  else if '0' ≤ c ∧ c ≤ '9' then .numeric
  else .identifier

noncomputable def next (cursor : Cursor) : Run (Option Token × Cursor) :=
  if cursor.ended then pure (none, cursor)
  else do
    match ← skipGap cursor.buffer cursor.pos with
    | none => pure (none, cursor.finish)
    | some start =>
      let c ← charAt cursor.buffer start
      let stop ← tokenEnd cursor.buffer c start
      pure (some ⟨kindOf c, between cursor.buffer start stop, start⟩, cursor.seek stop)

/-- Moves behind the end of the line, looking back at the character before
each line feed. -/
noncomputable def splitLine (cursor : Cursor) : Run (Nat × Cursor) := do
  let found? ← loop (fun found? =>
    match found? with
    | some found =>
      if 0 < found then do
        let c ← charAt cursor.buffer (found - 1)
        pure (if c = '\\' then .inl (findFrom? cursor.buffer ['\n'] (found + 1))
          else .inr (some found))
      else pure (.inr (some found))
    | none => pure (.inr none)) (findFrom? cursor.buffer ['\n'] cursor.pos)
  pure (match found? with
    | some found => (found, cursor.seek (found + 1))
    | none => (cursor.buffer.length, cursor.finish))

noncomputable def exhaust (want : Want) (cursor : Cursor) : Run (Bool × Cursor) :=
  loop (fun cursor => do
    match ← next cursor with
    | (none, later) => pure (.inr (true, later))
    | (some token, later) =>
      pure (if want.accepts (some token) then .inl later
        else .inr (false, later.seek token.offset))) cursor

noncomputable def want (want : Want) (cursor : Cursor) : Run (Option (Option Token) × Cursor) := do
  let (found, later) ← next cursor
  pure (if want.accepts found then (some found, later) else (none, cursor))

/-- Reads the wanted tokens one after the other, or steps back to `old`. -/
noncomputable def matchAll (old : Cursor) : List Want → Cursor → Run (List Text × Cursor)
  | [], cursor => pure ([], cursor)
  | want :: wants, cursor => do
    let (found, later) ← next cursor
    if want.accepts found then
      let (texts, last) ← matchAll old wants later
      pure (Token.textOf found :: texts, last)
    else pure ([], old)

/-! ## Runs of characters -/

theorem skipWhile_eq (sort : Char → Bool) (text : Text) (pos : Nat) :
    skipWhile sort text pos =
      settled (.ok (pos + ((text.drop pos).takeWhile sort).length)) := by
  refine loop_eq (fun _ => True) (text.length - ·)
    (r := fun i => .ok (i + ((text.drop i).takeWhile sort).length)) (fun i _ => ?_) trivial
  cases hdrop : text.drop i with
  | nil =>
    have hle : text.length ≤ i := List.drop_eq_nil_iff.mp hdrop
    exact Or.inr (Or.inl ⟨i, by rw [if_neg (by omega)]; rfl, rfl⟩)
  | cons c rest =>
    have hlt := lt_length_of_drop hdrop
    have hrest : text.drop (i + 1) = rest := by rw [← List.drop_drop, hdrop]; rfl
    rw [if_pos hlt, charAt_of_drop hdrop, settled_ok_bind]
    cases hc : sort c with
    | true =>
      refine Or.inl ⟨i + 1, rfl, trivial, by omega, ?_⟩
      rw [hrest, List.takeWhile_cons, if_pos hc, List.length_cons]
      exact congrArg Except.ok (by omega)
    | false =>
      refine Or.inr (Or.inl ⟨i, rfl, ?_⟩)
      rw [List.takeWhile_cons, hc]
      rfl

theorem literalEnd_eq (text : Text) (quote : Char) (pos : Nat) :
    literalEnd text quote pos =
      settled (.ok (min (pos + 1 + (Token.literalTail quote (text.drop (pos + 1))).length)
        text.length)) := by
  refine loop_eq (fun _ => True) (text.length - ·)
    (r := fun i =>
      .ok (min (i + (Token.literalTail quote (text.drop i)).length) text.length))
    (fun i _ => ?_) trivial
  cases hdrop : text.drop i with
  | nil =>
    have hle : text.length ≤ i := List.drop_eq_nil_iff.mp hdrop
    refine Or.inr (Or.inl ⟨text.length, by rw [if_neg (by omega)]; rfl, ?_⟩)
    exact congrArg Except.ok (Nat.min_eq_right (by omega))
  | cons c rest =>
    have hlt := lt_length_of_drop hdrop
    have hrest : text.drop (i + 1) = rest := by rw [← List.drop_drop, hdrop]; rfl
    rw [if_pos hlt, charAt_of_drop hdrop, settled_ok_bind]
    by_cases hslash : c = '\\'
    · refine Or.inl ⟨i + 2, by rw [if_pos hslash]; rfl, trivial, by omega, ?_⟩
      have hbehind : text.drop (i + 2) = rest.drop 1 := by rw [← hrest, List.drop_drop]
      subst hslash
      rw [hbehind]
      cases rest with
      | nil =>
        have hlen : text.length = i + 1 := by
          have := congrArg List.length hdrop
          rw [List.length_drop, List.length_cons, List.length_nil] at this
          omega
        simp [Token.literalTail, hlen]
      | cons d rest =>
        simp only [Token.literalTail, List.length_cons, List.drop_one, List.tail_cons]
        exact congrArg Except.ok (by omega)
    · have htail : Token.literalTail quote (c :: rest) =
          if c = quote then [c] else c :: Token.literalTail quote rest := by
        rw [Token.literalTail] <;> simp [hslash]
      rw [if_neg hslash, htail]
      by_cases hquote : c = quote
      · refine Or.inr (Or.inl ⟨i + 1, by rw [if_pos hquote]; rfl, ?_⟩)
        rw [if_pos hquote, List.length_singleton]
        exact congrArg Except.ok (Nat.min_eq_left (by omega))
      · refine Or.inl ⟨i + 1, by rw [if_neg hquote]; rfl, trivial, by omega, ?_⟩
        rw [if_neg hquote, hrest, List.length_cons]
        exact congrArg Except.ok (by omega)

/-! ## Gaps

Each thing that a round skips is skipped by `Token.dropGap` too, so what
lies behind the gap stays the same (`GapKept`) until nothing is left to
be skipped. -/

/-- The same text lies behind the gap from either of two places. -/
def GapKept (text : Text) (old new : Nat) : Prop :=
  Token.dropGap .between (text.drop new) = Token.dropGap .between (text.drop old)

/-- From a place to another that is not before it, over parts of a gap only. The
places are the same only if none of the marks stands there. -/
def Skips (text : Text) (marks : List Text) (old new : Nat) : Prop :=
  GapKept text old new ∧
    (new = old ∧ (∀ piece ∈ marks, startsAt text piece old = false) ∨ old < new)

theorem Skips.trans {text : Text} {marks others : List Text} {old middle new : Nat}
    (h : Skips text marks old middle) (h' : Skips text others middle new) :
    Skips text (marks ++ others) old new := by
  refine ⟨h'.1.trans h.1, ?_⟩
  rcases h.2 with ⟨rfl, hmarks⟩ | hlt
  · rcases h'.2 with ⟨rfl, hothers⟩ | hlt
    · refine Or.inl ⟨rfl, fun piece hpiece => ?_⟩
      rcases List.mem_append.mp hpiece with hpiece | hpiece
      · exact hmarks piece hpiece
      · exact hothers piece hpiece
    · exact Or.inr hlt
  · have hle := h'.2
    exact Or.inr (by omega)

theorem Skips.refl {text piece : Text} {pos : Nat} (h : startsAt text piece pos = false) :
    Skips text [piece] pos pos := by
  refine ⟨rfl, Or.inl ⟨rfl, fun other hother => ?_⟩⟩
  rw [List.mem_singleton.mp hother, h]

theorem startsAt_iff {text piece : Text} {pos : Nat} :
    startsAt text piece pos = true ↔ ∃ rest, text.drop pos = piece ++ rest := by
  rw [startsAt, List.isPrefixOf_iff_prefix]
  exact ⟨fun ⟨t, ht⟩ => ⟨t, ht.symm⟩, fun ⟨t, ht⟩ => ⟨t, ht.symm⟩⟩

theorem startsAt_of_drop_nil {text piece : Text} {pos : Nat} (h : text.drop pos = [])
    (hpiece : piece ≠ []) : startsAt text piece pos = false := by
  rw [startsAt, h]
  cases piece with
  | nil => exact absurd rfl hpiece
  | cons c rest => rfl

theorem skips_backslash (text : Text) (pos : Nat) :
    Skips text [['\\']] pos (if startsAt text ['\\'] pos then pos + 2 else pos) := by
  cases hstart : startsAt text ['\\'] pos with
  | false => exact Skips.refl hstart
  | true =>
    obtain ⟨rest, hrest⟩ := startsAt_iff.mp hstart
    refine ⟨?_, Or.inr (by rw [if_pos rfl]; omega)⟩
    rw [if_pos rfl, GapKept, ← List.drop_drop, hrest]
    exact (Token.dropGap_backslash rest).symm

/-- Both sorts of comments, told by what opens and closes them. -/
theorem skipComment_spec (part : Token.GapPart) (opening closing : Text)
    (hne : opening ≠ [])
    (hopen : ∀ rest, Token.dropGap .between (opening ++ rest) = Token.dropGap part rest)
    (hclose : ∀ text, Token.dropGap part text =
      match Text.findFirst? closing text with
      | some n => Token.dropGap .between (text.drop (n + closing.length))
      | none => []) (text : Text) (pos : Nat) :
    match skipComment opening closing text pos with
    | none => Token.dropGap .between (text.drop pos) = []
    | some behind => Skips text [opening] pos behind := by
  unfold skipComment
  cases hstart : startsAt text opening pos with
  | false => exact Skips.refl hstart
  | true =>
    obtain ⟨rest, hrest⟩ := startsAt_iff.mp hstart
    have hlen := congrArg List.length hrest
    rw [List.length_drop, List.length_append] at hlen
    have hpos := List.length_pos_iff.mpr hne
    have hbehind : text.drop (pos + opening.length) = rest := by
      rw [← List.drop_drop, hrest, List.drop_left]
    have hgap : Token.dropGap .between (text.drop pos) =
        match Text.findFirst? closing rest with
        | some n => Token.dropGap .between (rest.drop (n + closing.length))
        | none => [] := by
      rw [hrest, hopen, hclose]
    rw [if_pos rfl, findFrom?, if_neg (by omega), hbehind]
    cases hfind : Text.findFirst? closing rest with
    | none => rw [hfind] at hgap; exact hgap
    | some n =>
      rw [hfind] at hgap
      refine ⟨?_, Or.inr ?_⟩
      · have hdrop : text.drop (pos + opening.length + n + closing.length) =
            rest.drop (n + closing.length) := by
          rw [Nat.add_assoc _ n, ← List.drop_drop, hbehind]
        exact (congrArg (Token.dropGap .between) hdrop).trans hgap.symm
      · show pos < pos + opening.length + n + closing.length
        omega

theorem skipMarks_spec (text : Text) (pos : Nat) :
    match skipMarks text pos with
    | none => Token.dropGap .between (text.drop pos) = []
    | some behind => Skips text [['\\'], ['/', '/'], ['/', '*']] pos behind := by
  have hslash := skips_backslash text pos
  generalize hafter : (if startsAt text ['\\'] pos then pos + 2 else pos) = after at hslash
  have hmarks : skipMarks text pos = (skipComment ['/', '/'] ['\n'] text after).bind
      (skipComment ['/', '*'] ['*', '/'] text) := by
    rw [← hafter]
    rfl
  have hline := skipComment_spec .lineComment ['/', '/'] ['\n'] (List.cons_ne_nil _ _)
    (fun _ => rfl) Token.dropGap_lineComment text after
  rw [hmarks]
  cases hfirst : skipComment ['/', '/'] ['\n'] text after with
  | none =>
    rw [hfirst] at hline
    exact hslash.1.symm.trans hline
  | some middle =>
    rw [hfirst] at hline
    have hblock := skipComment_spec .blockComment ['/', '*'] ['*', '/'] (List.cons_ne_nil _ _)
      (fun _ => rfl) Token.dropGap_blockComment text middle
    rw [Option.bind_some]
    cases hsecond : skipComment ['/', '*'] ['*', '/'] text middle with
    | none =>
      rw [hsecond] at hblock
      exact (hslash.trans hline).1.symm.trans hblock
    | some behind =>
      rw [hsecond] at hblock
      exact (hslash.trans hline).trans hblock

/-- Where nothing is left to be skipped, the gap is over. -/
theorem dropGap_of_unmarked {text : Text} {pos : Nat}
    (hblank : (text.drop pos).takeWhile Token.isBlank = [])
    (hmarks : ∀ piece ∈ [['\\'], ['/', '/'], ['/', '*']], startsAt text piece pos = false) :
    Token.dropGap .between (text.drop pos) = text.drop pos := by
  have hnot : ∀ piece ∈ [['\\'], ['/', '/'], ['/', '*']], ∀ rest,
      text.drop pos ≠ piece ++ rest := by
    intro piece hpiece rest hrest
    have := hmarks piece hpiece
    rw [startsAt_iff.mpr ⟨rest, hrest⟩] at this
    cases this
  simp only [List.mem_cons, List.not_mem_nil, or_false, forall_eq_or_imp, forall_eq] at hnot
  cases hdrop : text.drop pos with
  | nil => rfl
  | cons c rest =>
    rw [hdrop] at hnot hblank
    have hc : ¬ Token.isBlank c = true := by
      intro hc
      rw [List.takeWhile_cons, if_pos hc] at hblank
      cases hblank
    refine Token.dropGap_of_stop hc ?_ ?_
    · rintro rfl
      exact hnot.1 rest rfl
    · rintro rfl d t rfl
      refine ⟨?_, ?_⟩
      · rintro rfl
        exact hnot.2.1 t rfl
      · rintro rfl
        exact hnot.2.2 t rfl

def gapEnd? (text : Text) (pos : Nat) : Option Nat :=
  match Token.dropGap .between (text.drop pos) with
  | [] => none
  | c :: rest => some (text.length - (c :: rest).length)

theorem gapEnd?_of_unmarked {text : Text} {pos : Nat}
    (h : Token.dropGap .between (text.drop pos) = text.drop pos) :
    gapEnd? text pos = if pos < text.length then some pos else none := by
  rw [gapEnd?, h]
  cases hfront : text.drop pos with
  | nil =>
    have hle : text.length ≤ pos := List.drop_eq_nil_iff.mp hfront
    rw [if_neg (by omega)]
  | cons c rest =>
    have hlt := lt_length_of_drop hfront
    have hlen := congrArg List.length hfront
    rw [List.length_drop] at hlen
    rw [if_pos hlt]
    exact congrArg some (by omega)

theorem skipGap_eq (text : Text) (pos : Nat) :
    skipGap text pos = settled (.ok (gapEnd? text pos)) := by
  refine loop_eq (fun _ => True) (text.length - ·)
    (r := fun old => .ok (gapEnd? text old)) (fun old _ => ?_) trivial
  rw [skipWhile_eq, settled_ok_bind]
  generalize hstart : old + ((text.drop old).takeWhile Token.isBlank).length = start
  have hdrop : text.drop start = (text.drop old).dropWhile Token.isBlank := by
    have hparts := List.takeWhile_append_dropWhile (p := Token.isBlank) (l := text.drop old)
    have hleft := congrArg (List.drop ((text.drop old).takeWhile Token.isBlank).length) hparts
    rw [List.drop_left] at hleft
    rw [← hstart, ← List.drop_drop, ← hleft]
  have hkept : GapKept text old start := by
    rw [GapKept, hdrop, Token.dropGap_dropWhile]
  have hmarks := skipMarks_spec text start
  cases hskip : skipMarks text start with
  | none =>
    rw [hskip] at hmarks
    refine Or.inr (Or.inl ⟨none, rfl, ?_⟩)
    rw [gapEnd?, ← hkept, hmarks]
  | some behind =>
    rw [hskip] at hmarks
    by_cases hsame : behind = old
    · have hnone : (text.drop old).takeWhile Token.isBlank = [] :=
        List.length_eq_zero_iff.mp (by have := hmarks.2; omega)
      obtain rfl : old = start := by rw [hnone] at hstart; exact hstart
      have hclean := dropGap_of_unmarked hnone
        ((hmarks.2.resolve_right (by omega)).2)
      refine Or.inr (Or.inl ⟨_, by simp only [if_pos hsame, pure_eq]; rfl, ?_⟩)
      rw [hsame, gapEnd?_of_unmarked hclean]
    · have hlt : old < text.length := by
        refine Nat.lt_of_not_le fun hle => hsame ?_
        have hnil : text.drop old = [] := List.drop_eq_nil_iff.mpr hle
        obtain rfl : old = start := by rw [hnil] at hstart; exact hstart
        have hunmarked : skipMarks text old = some old := by
          simp [skipMarks, skipComment, startsAt_of_drop_nil hnil]
        exact (Option.some.inj (hunmarked.symm.trans hskip)).symm
      refine Or.inl ⟨behind, by simp only [if_neg hsame, pure_eq], trivial, ?_, ?_⟩
      · have := hmarks.2
        omega
      · have hall : GapKept text old behind := hmarks.1.trans hkept
        rw [gapEnd?, gapEnd?, hall]

/-! ## Tokens -/

theorem kindOf_eq (c : Char) (rest : Text) : kindOf c = (Token.lexeme c rest).1 := by
  unfold kindOf Token.lexeme
  split
  · rfl
  · split
    · rfl
    · split
      · rfl
      · rfl

theorem tokenEnd_eq {text rest : Text} {c : Char} {pos : Nat} (h : text.drop pos = c :: rest) :
    tokenEnd text c pos = settled (.ok (pos + (Token.lexeme c rest).2.length)) := by
  have hrest : text.drop (pos + 1) = rest := by rw [← List.drop_drop, h]; rfl
  have hlen : text.length = pos + 1 + rest.length := by
    have := congrArg List.length h
    rw [List.length_drop, List.length_cons] at this
    omega
  have hliteral : literalEnd text c pos =
      settled (.ok (pos + (c :: Token.literalTail c rest).length)) := by
    have hle := Token.length_literalTail_le c rest
    rw [literalEnd_eq, hrest, Nat.min_eq_left (by omega), List.length_cons]
    exact congrArg (fun n => settled (.ok n)) (by omega)
  unfold tokenEnd Token.lexeme
  by_cases hstring : c = '"'
  · rw [if_pos (Or.inl hstring), if_pos hstring, hliteral]
  · rw [if_neg hstring]
    by_cases hchar : c = '\''
    · rw [if_pos (Or.inr hchar), if_pos hchar, hliteral]
    · rw [if_neg (by rintro (h | h) <;> contradiction), if_neg hchar]
      by_cases hoperator : c ∈ Token.operators
      · rw [if_pos hoperator, if_pos hoperator]
        rfl
      · rw [if_neg hoperator, if_neg hoperator, skipWhile_eq, hrest, List.length_cons]
        exact congrArg (fun n => settled (.ok n)) (by omega)

theorem between_of_drop {text rest piece : Text} {pos : Nat} (h : text.drop pos = rest)
    (hpiece : piece <+: rest) : between text pos (pos + piece.length) = piece := by
  rw [between, List.drop_take, h, Nat.add_sub_cancel_left]
  exact (List.prefix_iff_eq_take.mp hpiece).symm

theorem next_eq (cursor : Cursor) : next cursor = settled (.ok cursor.next) := by
  unfold next
  cases hended : cursor.ended with
  | true => simp [Cursor.next, hended]
  | false =>
    have hgap := Cursor.ahead_of_drop hended rfl
    rw [if_neg Bool.false_ne_true, skipGap_eq, settled_ok_bind, gapEnd?, ← hgap]
    cases hahead : cursor.ahead with
    | nil =>
      rw [hahead] at hgap
      rw [Cursor.next, Cursor.next?, hended, Token.first?_of_gap_nil hgap.symm]
      rfl
    | cons c rest =>
      obtain ⟨offset, hnext, hdrop⟩ := Cursor.next_of_ahead hahead
      have hoffset : cursor.buffer.length - (c :: rest).length = offset := by
        have := congrArg List.length hdrop
        rw [List.length_drop, List.length_cons] at this
        rw [List.length_cons]
        omega
      simp only [hoffset]
      rw [charAt_of_drop hdrop, settled_ok_bind, tokenEnd_eq hdrop, settled_ok_bind, hnext,
        kindOf_eq c rest, between_of_drop hdrop (Token.isPrefix_lexeme c rest)]
      rfl

theorem want_eq (w : Want) (cursor : Cursor) :
    want w cursor = settled (.ok (cursor.want w)) := by
  unfold want
  rw [next_eq, settled_ok_bind]
  rfl

/-- The rewinding loop over tokens: a token that is wanted leaves less to be
read, and the first other one ends the loop. -/
theorem exhaust_eq (w : Want) (cursor : Cursor) :
    exhaust w cursor = settled (.ok (cursor.exhaust w)) := by
  refine loop_eq (fun _ => True) Cursor.remaining (r := fun cursor => .ok (cursor.exhaust w))
    (fun cursor _ => ?_) trivial
  rw [next_eq, settled_ok_bind]
  cases hnext : cursor.next with
  | mk found later =>
    cases found with
    | none =>
      rw [Cursor.exhaust_of_next_none hnext]
      exact Or.inr (Or.inl ⟨_, rfl, rfl⟩)
    | some token =>
      rw [Cursor.exhaust_of_next_some hnext]
      by_cases haccepts : w.accepts (some token) = true
      · refine Or.inl ⟨later, ?_, trivial, Cursor.remaining_next hnext, ?_⟩
        · simp only [if_pos haccepts, pure_eq]
        · simp only [if_pos haccepts]
      · refine Or.inr (Or.inl ⟨(false, later.seek token.offset), ?_, ?_⟩)
        · simp only [if_neg haccepts, pure_eq]
        · simp only [if_neg haccepts]

theorem matchAll_matchedTexts (old : Cursor) (wants : List Want) (cursor : Cursor) :
    matchAll old wants cursor =
      settled (.ok ((Cursor.matchedTexts wants cursor).1,
        (Cursor.matchedTexts wants cursor).2.getD old)) := by
  induction wants generalizing cursor with
  | nil => rfl
  | cons w wants ih =>
    rw [matchAll, next_eq, settled_ok_bind, Cursor.matchedTexts]
    cases haccepts : w.accepts cursor.next.1 with
    | true =>
      simp only [haccepts, if_true, ih, settled_ok_bind]
      rfl
    | false =>
      simp only [haccepts, Bool.false_eq_true, if_false]
      rfl

theorem matchAll_eq (wants : List Want) (cursor : Cursor) :
    matchAll cursor wants cursor = settled (.ok (cursor.matchAll wants)) :=
  matchAll_matchedTexts cursor wants cursor

/-! ## Lines

A line feed behind a backslash is passed over by looking for the next one
behind it. -/

def escapedAt (text : Text) (pos : Nat) : Bool :=
  (text.take pos).getLast? == some '\\'

/-- Where the line that a position lies in ends. -/
def lineEnd? (text : Text) (pos : Nat) : Option Nat :=
  if text.length < pos then none
  else (Cursor.lineLength? (escapedAt text pos) (text.drop pos)).map (pos + ·)

/-- What is left to be done at a line feed that was found. -/
def lineEndAt? (text : Text) (found? : Option Nat) : Option Nat :=
  found?.bind fun found => if escapedAt text found then lineEnd? text (found + 1) else some found

theorem lineLength?_eq_findFirst? (front text : Text) :
    Cursor.lineLength? (front.getLast? == some '\\') text =
      (Text.findFirst? ['\n'] text).bind fun n =>
        if (front ++ text.take n).getLast? == some '\\' then
          (Cursor.lineLength? ((front ++ text.take (n + 1)).getLast? == some '\\')
            (text.drop (n + 1))).map (n + 1 + ·)
        else some n := by
  induction text generalizing front with
  | nil => rfl
  | cons c rest ih =>
    by_cases hc : c = '\n'
    · subst hc
      have hfind : Text.findFirst? ['\n'] ('\n' :: rest) = some 0 := rfl
      rw [hfind, Cursor.lineLength?]
      cases hescaped : front.getLast? == some '\\' with
      | true => simp [eq_of_beq hescaped, Nat.add_comm]
      | false => simp [ne_of_beq_false hescaped]
    · have hfind : Text.findFirst? ['\n'] (c :: rest) =
          (Text.findFirst? ['\n'] rest).map (· + 1) := by
        rw [Text.findFirst?, if_neg (by simpa [List.isPrefixOf] using Ne.symm hc)]
      have hflag : (c == '\\') = ((front ++ [c]).getLast? == some '\\') := by simp
      rw [Cursor.lineLength?, if_neg (fun h => hc h.1), hfind, hflag, ih]
      cases Text.findFirst? ['\n'] rest with
      | none => rfl
      | some n =>
        have hfront : front ++ [c] ++ rest.take n = front ++ (c :: rest).take (n + 1) := by simp
        have hbehind : front ++ [c] ++ rest.take (n + 1) = front ++ (c :: rest).take (n + 2) := by
          simp
        simp only [Option.bind_some, Option.map_some, hfront, hbehind, List.drop_succ_cons]
        by_cases hescaped : ((front ++ (c :: rest).take (n + 1)).getLast? == some '\\') = true
        · rw [if_pos hescaped, if_pos hescaped, Option.map_map]
          exact congrArg (Option.map · _) (funext fun k => by
            show n + 1 + k + 1 = n + 1 + 1 + k
            omega)
        · rw [if_neg hescaped, if_neg hescaped]
          rfl

theorem findFirst?_lt {text : Text} {c : Char} {n : Nat} (h : Text.findFirst? [c] text = some n) :
    n < text.length := by
  induction text generalizing n with
  | nil => cases h
  | cons d rest ih =>
    rw [Text.findFirst?] at h
    split at h
    · cases h
      exact Nat.zero_lt_succ _
    · obtain ⟨m, hm, rfl⟩ := Option.map_eq_some_iff.mp h
      exact Nat.succ_lt_succ (ih hm)

/-- The end of a line is at the first line feed, or further on. -/
theorem lineEnd?_eq (text : Text) (pos : Nat) :
    lineEnd? text pos = lineEndAt? text (findFrom? text ['\n'] pos) := by
  unfold lineEnd? findFrom?
  split
  · rfl
  · next hpos =>
    have hline := lineLength?_eq_findFirst? (text.take pos) (text.drop pos)
    simp only [← List.take_add, List.drop_drop] at hline
    rw [escapedAt, hline]
    cases hfind : Text.findFirst? ['\n'] (text.drop pos) with
    | none => rfl
    | some n =>
      have hlt := findFirst?_lt hfind
      rw [List.length_drop] at hlt
      show (if escapedAt text (pos + n) then
          (Cursor.lineLength? (escapedAt text (pos + n + 1)) (text.drop (pos + n + 1))).map
            (n + 1 + ·)
        else some n).map (pos + ·) =
        if escapedAt text (pos + n) then lineEnd? text (pos + n + 1) else some (pos + n)
      cases escapedAt text (pos + n) with
      | true =>
        rw [if_pos rfl, if_pos rfl, lineEnd?, if_neg (by omega), Option.map_map]
        exact congrArg (Option.map · _) (funext fun k => (Nat.add_assoc pos (n + 1) k).symm)
      | false => rfl

theorem split_lineFeed (cursor : Cursor) :
    cursor.split ['\n'] =
      match lineEnd? cursor.buffer cursor.pos with
      | some found => (found, cursor.seek (found + 1))
      | none => (cursor.buffer.length, cursor.finish) := by
  have hend : lineEnd? cursor.buffer cursor.pos =
      (cursor.distance? ['\n']).map (cursor.pos + ·) := by
    unfold lineEnd? Cursor.distance?
    split
    · rfl
    · rfl
  rw [hend, Cursor.split]
  cases cursor.distance? ['\n'] <;> rfl

theorem charAt_pred {text : Text} {found : Nat} (hpos : 0 < found) (hlt : found < text.length) :
    ∃ c, charAt text (found - 1) = settled (.ok c) ∧ (escapedAt text found = true ↔ c = '\\') := by
  have hget : text[found - 1]? = some text[found - 1] := List.getElem?_eq_getElem (by omega)
  refine ⟨text[found - 1], by rw [charAt, hget]; rfl, ?_⟩
  rw [escapedAt, List.getLast?_take, if_neg (by omega), hget]
  simp

theorem splitLine_eq (cursor : Cursor) :
    splitLine cursor = settled (.ok (cursor.split ['\n'])) := by
  obtain ⟨text, pos, ended⟩ := cursor
  -- a place that was found lies inside the text, and the next one lies behind it
  have hfound : ∀ pos found, findFrom? text ['\n'] pos = some found →
      pos ≤ found ∧ found < text.length := by
    intro pos found h
    unfold findFrom? at h
    split at h
    · cases h
    · obtain ⟨n, hn, rfl⟩ := Option.map_eq_some_iff.mp h
      have hlt := findFirst?_lt hn
      rw [List.length_drop] at hlt
      omega
  unfold splitLine
  rw [loop_eq (fun found? => ∀ found ∈ found?, found < text.length)
    (fun found? => found?.elim 0 (text.length - ·))
    (r := fun found? => .ok (lineEndAt? text found?)) ?_
    (fun found h => (hfound _ _ h).2), settled_ok_bind, ← lineEnd?_eq, split_lineFeed]
  · rfl
  · rintro (_ | found) hinv
    · exact Or.inr (Or.inl ⟨none, rfl, rfl⟩)
    · have hlt := hinv found rfl
      by_cases hpos : 0 < found
      · obtain ⟨c, hc, hescaped⟩ := charAt_pred hpos hlt
        by_cases hslash : c = '\\'
        · refine Or.inl ⟨findFrom? text ['\n'] (found + 1), ?_, ?_, ?_, ?_⟩
          · simp only [if_pos hpos, hc, settled_ok_bind, if_pos hslash, pure_eq]
          · exact fun later h => (hfound _ _ h).2
          · cases hlater : findFrom? text ['\n'] (found + 1) with
            | none => show 0 < text.length - found; omega
            | some later =>
              have := (hfound _ _ hlater).1
              show text.length - later < text.length - found
              omega
          · rw [lineEndAt?, Option.bind_some, if_pos (hescaped.mpr hslash), lineEnd?_eq]
        · refine Or.inr (Or.inl ⟨some found, ?_, ?_⟩)
          · simp only [if_pos hpos, hc, settled_ok_bind, if_neg hslash, pure_eq]
          · rw [lineEndAt?, Option.bind_some, if_neg (mt hescaped.mp hslash)]
      · obtain rfl : found = 0 := by omega
        exact Or.inr (Or.inl ⟨some 0, rfl, rfl⟩)

end Checked

end BitLayout
