import BitLayout.Proofs.Cursor.Ahead
import BitLayout.Proofs.Token.Front

/-!
# A cursor in front of a known text

A cursor faces a text (`Cursor.Faces`) if what lies ahead of it is that
text from its first token on, except that the end of the whole may have
been trimmed. What a text begins with (`Token.Front`) does not depend on
the trimming, so each operation of a cursor that faces a text is told by
the text alone: reading a token leads behind it (`Faces.next`), reading a
row of tokens or looking for one behind it or nowhere, and moving to the
end of a line to the next line (`split_line`).

An ended cursor faces every text without a token.
-/

namespace BitLayout

namespace Cursor

/-! ## Facing a text -/

/-- What lies ahead is the text from its first token on, as far as its end has
not been trimmed off. -/
def Faces (cursor : Cursor) (text : Text) : Prop :=
  cursor.ahead = Text.trimRight (Token.dropGap .between text)

theorem Faces.of_drop {cursor : Cursor} {text : Text} (hended : cursor.ended = false)
    (h : cursor.buffer.drop cursor.pos = Text.trimRight text) : cursor.Faces text := by
  rw [Faces, ahead_of_drop hended h, Token.dropGap_trimRight]

theorem faces_ofText (text : Text) : (ofText text).Faces text :=
  Faces.of_drop rfl rfl

theorem Faces.congr {cursor : Cursor} {text other : Text} (h : cursor.Faces text)
    (hgap : Token.dropGap .between other = Token.dropGap .between text) : cursor.Faces other := by
  rw [Faces, hgap]
  exact h

/-- Reading a token, in full: where it was, and what was left of the text from
there on. -/
theorem Faces.next_offset {cursor : Cursor} {text word rest : Text} {kind : TokenKind}
    (h : cursor.Faces text) (hfront : Token.Front text kind word rest) :
    ∃ offset later, cursor.next = (some ⟨kind, word, offset⟩, later) ∧ later.ended = false ∧
      later.pos = offset + word.length ∧
      later.buffer.drop offset = Text.trimRight (word ++ rest) := by
  obtain ⟨front, last, hword, hlast⟩ := hfront.visible
  have htrim : Text.trimRight (word ++ rest) = word ++ Text.trimRight rest := by
    rw [hword, Text.trimRight_append_of_last hlast]
  rw [Faces, hfront.gap, htrim] at h
  obtain ⟨c, tail, rfl⟩ : ∃ c tail, word = c :: tail := by
    cases front with
    | nil => exact ⟨last, [], hword⟩
    | cons c front => exact ⟨c, front ++ [last], hword⟩
  have hahead : cursor.ahead = c :: (tail ++ Text.trimRight rest) := h
  obtain ⟨offset, hnext, hdrop⟩ := next_of_ahead hahead
  rw [hfront.lexeme c tail _ rfl (Text.trimRight_isPrefix rest)] at hnext
  have hended : cursor.ended = false := not_ended_of_ahead h
  exact ⟨offset, _, hnext, hended, rfl, hdrop.trans htrim.symm⟩

/-- **Reading a token** leads behind it, and stepping back leads in front of it
again. -/
theorem Faces.next {cursor : Cursor} {text word rest : Text} {kind : TokenKind}
    (h : cursor.Faces text) (hfront : Token.Front text kind word rest) :
    ∃ offset later, cursor.next = (some ⟨kind, word, offset⟩, later) ∧ later.Faces rest ∧
      (later.seek offset).Faces text := by
  obtain ⟨offset, later, hnext, hended, hpos, hdrop⟩ := h.next_offset hfront
  refine ⟨offset, later, hnext, Faces.of_drop hended ?_, ?_⟩
  · obtain ⟨front, last, hword, hlast⟩ := hfront.visible
    rw [hpos, ← List.drop_drop, hdrop, hword, Text.trimRight_append_of_last hlast,
      List.drop_left]
  · rw [Faces, ahead_seek_offset hnext]
    exact h

theorem Faces.want_take {cursor : Cursor} {text word rest : Text} {kind : TokenKind} {w : Want}
    (h : cursor.Faces text) (hfront : Token.Front text kind word rest)
    (hw : ∀ offset, w.accepts (some ⟨kind, word, offset⟩) = true) :
    ∃ offset later, cursor.want w = (some (some ⟨kind, word, offset⟩), later) ∧
      later.Faces rest := by
  obtain ⟨offset, later, hnext, hlater, -⟩ := h.next hfront
  refine ⟨offset, later, ?_, hlater⟩
  simp only [want, hnext, hw, if_true]

theorem Faces.want_leave {cursor : Cursor} {text word rest : Text} {kind : TokenKind} {w : Want}
    (h : cursor.Faces text) (hfront : Token.Front text kind word rest)
    (hw : ∀ offset, w.accepts (some ⟨kind, word, offset⟩) = false) :
    cursor.want w = (none, cursor) := by
  obtain ⟨offset, later, hnext, -, -⟩ := h.next hfront
  simp only [want, hnext, hw, Bool.false_eq_true, if_false]

theorem Faces.exhaust_take {cursor : Cursor} {text word rest : Text} {kind : TokenKind}
    (h : cursor.Faces text) (hfront : Token.Front text kind word rest) :
    ∃ later : Cursor, cursor.exhaust (.text word) = later.exhaust (.text word) ∧
      later.Faces rest := by
  obtain ⟨offset, later, hnext, hlater, -⟩ := h.next hfront
  have haccepts : Want.accepts (.text word) (some ⟨kind, word, offset⟩) = true :=
    beq_self_eq_true word
  exact ⟨later, by rw [exhaust_of_next_some hnext, if_pos haccepts], hlater⟩

theorem Faces.exhaust_leave {cursor : Cursor} {text word rest other : Text} {kind : TokenKind}
    (h : cursor.Faces text) (hfront : Token.Front text kind word rest) (hne : word ≠ other) :
    ∃ later, cursor.exhaust (.text other) = (false, later) ∧ later.Faces text := by
  obtain ⟨offset, later, hnext, -, hback⟩ := h.next hfront
  refine ⟨later.seek offset, ?_, hback⟩
  rw [exhaust_of_next_some hnext, if_neg]
  exact fun heq => hne (eq_of_beq heq)

/-- A row of operators that does not begin leaves the cursor in place, also
where there is no token at all. -/
theorem Faces.exhaust_none {cursor : Cursor} {text : Text} {op : Char} (h : cursor.Faces text)
    (hop : ∀ c rest, Token.dropGap .between text = c :: rest → c ≠ op) :
    (cursor.exhaust (.text [op])).2.Faces text := by
  rcases hnext : cursor.next with ⟨_ | token, later⟩
  · have hnil : cursor.ahead = [] := by
      cases hahead : cursor.ahead with
      | nil => rfl
      | cons c rest =>
        obtain ⟨offset, hsome, -⟩ := next_of_ahead hahead
        cases (Prod.mk.inj (hsome.symm.trans hnext)).1
    have hended := (next_of_ahead_nil hnil).2
    rw [hnext] at hended
    rw [exhaust_of_next_none hnext, Faces, ahead_of_ended hended, ← hnil]
    exact h
  · obtain ⟨c, rest, hahead, -, hlex, -⟩ := next_eq_some hnext
    have hc : c ≠ op := by
      obtain ⟨tail, htail⟩ := Text.trimRight_isPrefix (Token.dropGap .between text)
      rw [← h, hahead] at htail
      exact hop c _ htail.symm
    have htext : ¬ Want.accepts (.text [op]) (some token) = true := by
      obtain ⟨tail, htail⟩ := Token.exists_lexeme c rest
      intro haccepts
      have htoken : token.text = [op] := eq_of_beq haccepts
      have hword : token.text = (Token.lexeme c rest).2 := congrArg Prod.snd hlex
      rw [htoken, htail] at hword
      exact hc (List.cons.inj hword).1.symm
    rw [exhaust_of_next_some hnext, if_neg htext, Faces, ahead_seek_offset hnext]
    exact h

/-! ## Lines -/

theorem lineLength?_line {flag : Bool} {line rest : Text} (hline : '\n' ∉ line)
    (hflag : line = [] → flag = false) (hlast : line.getLast? ≠ some '\\') :
    lineLength? flag (line ++ '\n' :: rest) = some line.length := by
  induction line generalizing flag with
  | nil =>
    obtain rfl := hflag rfl
    rfl
  | cons c line ih =>
    have hc : c ≠ '\n' := fun heq => hline (heq ▸ List.mem_cons_self)
    rw [List.cons_append, lineLength?, if_neg (fun h => hc h.1), ih]
    · rfl
    · exact fun hmem => hline (List.mem_cons_of_mem c hmem)
    · rintro rfl
      refine beq_eq_false_iff_ne.mpr fun heq => hlast ?_
      rw [heq]
      rfl
    · intro heq
      refine hlast ?_
      cases line with
      | nil => cases heq
      | cons d line => exact heq

theorem lineLength?_of_not_mem {flag : Bool} {text : Text} (h : '\n' ∉ text) :
    lineLength? flag text = none := by
  induction text generalizing flag with
  | nil => rfl
  | cons c text ih =>
    have hc : c ≠ '\n' := fun heq => h (heq ▸ List.mem_cons_self)
    rw [lineLength?, if_neg (fun h => hc h.1), ih fun hmem => h (List.mem_cons_of_mem c hmem)]
    rfl

section Line

variable {cursor : Cursor} {front tail text rest : Text} {last : Char} {offset : Nat}

/-- What is left behind a visible character. -/
theorem drop_of_visible
    (hdrop : cursor.buffer.drop offset = Text.trimRight (front ++ [last] ++ text))
    (hpos : cursor.pos = offset + (front ++ [last]).length) (hlast : Text.isSpace last = false) :
    cursor.buffer.drop cursor.pos = Text.trimRight text := by
  rw [hpos, ← List.drop_drop, hdrop, Text.trimRight_append_of_last hlast, List.drop_left]

/-- A visible character right before the cursor is no backslash, so the end of
the line is not escaped there. -/
theorem distance?_of_visible
    (hdrop : cursor.buffer.drop offset = Text.trimRight (front ++ [last] ++ text))
    (hpos : cursor.pos = offset + (front ++ [last]).length) (hlast : Text.isSpace last = false)
    (hslash : last ≠ '\\') :
    cursor.distance? ['\n'] = lineLength? false (Text.trimRight text) := by
  have hbehind := drop_of_visible hdrop hpos hlast
  have hinside : ¬ cursor.buffer.length < cursor.pos := by
    have hlen : (front ++ [last]).length ≤ (cursor.buffer.drop offset).length := by
      rw [hdrop, Text.trimRight_append_of_last hlast]
      exact (List.prefix_append _ _).length_le
    have hvisible : 0 < (front ++ [last]).length := by simp
    rw [List.length_drop] at hlen
    omega
  have hflag : ((cursor.buffer.take cursor.pos).getLast? == some '\\') = false := by
    rw [hpos, List.take_add, hdrop, Text.trimRight_append_of_last hlast, List.take_left,
      ← List.append_assoc, List.getLast?_concat]
    exact beq_eq_false_iff_ne.mpr fun heq => hslash (Option.some.inj heq)
  simp only [distance?, if_neg hinside, if_true, hflag, hbehind]

/-- Where no line feed follows the word, its line is what is left of the text. -/
theorem split_end {word : Text} (hdrop : cursor.buffer.drop offset = word ++ tail)
    (hpos : cursor.pos = offset + word.length) (htail : '\n' ∉ tail) :
    (cursor.split ['\n']).2.ended = true ∧
      cursor.slice (some offset) (some (cursor.split ['\n']).1) = word ++ tail := by
  have hbehind : cursor.buffer.drop cursor.pos = tail := by
    rw [hpos, ← List.drop_drop, hdrop, List.drop_left]
  have hnone : cursor.distance? ['\n'] = none := by
    simp only [distance?, hbehind, if_true, lineLength?_of_not_mem htail, ite_self]
  rw [split, hnone]
  refine ⟨rfl, ?_⟩
  show cursor.slice (some (offset : Int)) (some (cursor.buffer.length : Nat)) = _
  rw [slice_natCast, List.take_length, hdrop]

/-- Where nothing but white space follows, the line is the last one. -/
theorem split_last_line
    (hdrop : cursor.buffer.drop offset =
      Text.trimRight (front ++ [last] ++ (tail ++ '\n' :: rest)))
    (hpos : cursor.pos = offset + (front ++ [last]).length) (hlast : Text.isSpace last = false)
    (hslash : last ≠ '\\') (htail : '\n' ∉ tail) (hrest : Text.trimRight ('\n' :: rest) = []) :
    (cursor.split ['\n']).2.Faces rest ∧
      cursor.slice (some offset) (some (cursor.split ['\n']).1) =
        Text.trimRight (front ++ [last] ++ tail) := by
  have hnone : cursor.distance? ['\n'] = none := by
    rw [distance?_of_visible hdrop hpos hlast hslash, Text.trimRight_append_of_nil hrest]
    exact lineLength?_of_not_mem fun hmem => htail ((Text.trimRight_isPrefix tail).subset hmem)
  have hnil : Text.trimRight rest = [] :=
    Text.trimRight_eq_nil_iff.mpr fun c hc =>
      Text.trimRight_eq_nil_iff.mp hrest c (List.mem_cons_of_mem _ hc)
  rw [split, hnone]
  constructor
  · show ahead cursor.finish = _
    rw [ahead_of_ended (finish_ended cursor), ← Token.dropGap_trimRight, hnil]
    rfl
  · show cursor.slice (some (offset : Int)) (some (cursor.buffer.length : Nat)) = _
    rw [slice_natCast, List.take_length, hdrop, ← List.append_assoc,
      Text.trimRight_append_of_nil hrest]

/-- Where something follows, the line is cut out as it stands. -/
theorem split_inner_line (hended : cursor.ended = false)
    (hdrop : cursor.buffer.drop offset =
      Text.trimRight (front ++ [last] ++ (tail ++ '\n' :: rest)))
    (hpos : cursor.pos = offset + (front ++ [last]).length) (hlast : Text.isSpace last = false)
    (hslash : last ≠ '\\') (htail : '\n' ∉ tail) (hend : tail.getLast? ≠ some '\\')
    (hrest : Text.trimRight ('\n' :: rest) ≠ []) :
    (cursor.split ['\n']).2.Faces rest ∧
      cursor.slice (some offset) (some (cursor.split ['\n']).1) = front ++ [last] ++ tail := by
  have htrim : Text.trimRight (tail ++ '\n' :: rest) = tail ++ '\n' :: Text.trimRight rest := by
    rw [Text.trimRight_append_of_ne hrest, Text.trimRight_cons, if_neg]
    exact fun hspace => hrest (by rw [Text.trimRight_cons, if_pos hspace])
  have hsome : cursor.distance? ['\n'] = some tail.length := by
    rw [distance?_of_visible hdrop hpos hlast hslash, htrim]
    exact lineLength?_line htail (fun _ => rfl) hend
  have hbehind : cursor.buffer.drop cursor.pos = tail ++ '\n' :: Text.trimRight rest :=
    (drop_of_visible hdrop hpos hlast).trans htrim
  have hwhole : cursor.buffer.drop offset =
      (front ++ [last] ++ tail) ++ '\n' :: Text.trimRight rest := by
    rw [hdrop, Text.trimRight_append_of_last hlast, htrim, List.append_assoc _ tail]
  have hstop : cursor.pos + tail.length = offset + (front ++ [last] ++ tail).length := by
    have hlength : (front ++ [last] ++ tail).length = (front ++ [last]).length + tail.length :=
      List.length_append
    rw [hpos, hlength, Nat.add_assoc]
  rw [split, hsome]
  constructor
  · refine Faces.of_drop hended ?_
    show cursor.buffer.drop (cursor.pos + tail.length + 1) = _
    rw [Nat.add_assoc, ← List.drop_drop, hbehind, ← List.drop_drop, List.drop_left]
    rfl
  · show cursor.slice (some (offset : Int)) (some (cursor.pos + tail.length : Nat)) = _
    rw [hstop]
    exact slice_of_drop hwhole

/-- From behind a visible character of a line that does not end in a backslash, the
line is cut out as it stands, or with its end trimmed where nothing follows. -/
theorem split_visible (hended : cursor.ended = false)
    (hdrop : cursor.buffer.drop offset =
      Text.trimRight (front ++ [last] ++ (tail ++ '\n' :: rest)))
    (hpos : cursor.pos = offset + (front ++ [last]).length) (hlast : Text.isSpace last = false)
    (hslash : last ≠ '\\') (htail : '\n' ∉ tail) (hend : tail.getLast? ≠ some '\\') :
    (cursor.split ['\n']).2.Faces rest ∧
      (cursor.slice (some offset) (some (cursor.split ['\n']).1) = front ++ [last] ++ tail ∨
        cursor.slice (some offset) (some (cursor.split ['\n']).1) =
          Text.trimRight (front ++ [last] ++ tail)) := by
  by_cases hrest : Text.trimRight ('\n' :: rest) = []
  · obtain ⟨hfaces, hslice⟩ := split_last_line hdrop hpos hlast hslash htail hrest
    exact ⟨hfaces, Or.inr hslice⟩
  · obtain ⟨hfaces, hslice⟩ :=
      split_inner_line hended hdrop hpos hlast hslash htail hend hrest
    exact ⟨hfaces, Or.inl hslice⟩

end Line

/-- **Moving to the next line** from behind a word of a line. -/
theorem split_line {cursor : Cursor} {word tail rest : Text} {offset : Nat}
    (hended : cursor.ended = false)
    (hdrop : cursor.buffer.drop offset = Text.trimRight (word ++ (tail ++ '\n' :: rest)))
    (hpos : cursor.pos = offset + word.length) (hne : word ≠ [])
    (hword : word.all Token.isWordChar = true)
    (htail : '\n' ∉ tail) (hend : tail.getLast? ≠ some '\\') :
    (cursor.split ['\n']).2.Faces rest ∧
      (cursor.slice (some offset) (some (cursor.split ['\n']).1) = word ++ tail ∨
        cursor.slice (some offset) (some (cursor.split ['\n']).1) =
          Text.trimRight (word ++ tail)) := by
  have hchar := List.all_eq_true.mp hword _ (List.getLast_mem hne)
  rw [← List.dropLast_concat_getLast hne] at hdrop hpos ⊢
  exact split_visible hended hdrop hpos (Token.visible_of_wordChar hchar)
    (Token.not_wordChar hchar rfl) htail hend

end Cursor

end BitLayout
