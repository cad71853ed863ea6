import BitLayout.Proofs.Checked.Enumeration
import BitLayout.Proofs.Document.Digits
import BitLayout.Proofs.Layout.Declared

/-!
# The compiler by positions

The compiler as a run: it reads an item, declares it, and begins again
where the item left the cursor, until no token is left. Every failure of
the readers below is told as a failure of the description or let through.
That none is let through, and that the compiler always comes to an end, is
`Checked.Total`, for every text whose numbers are not too long. The other
texts are compiled to an end as well, and only a number that is too long
gets through.
-/

namespace BitLayout

namespace Checked

open Run

/-! ## The runs -/

/-- Tells a numeral that cannot be read as an error of its macro. -/
def asDefineFault (name : Text) (start : Nat) : Fault → Fault
  | .numeral e => .document (.badDefineValue name start e)
  | fault => fault

def asEnumerationFault (start : Nat) : Fault → Fault
  | .enumeration e => .document (.badEnumeration start e)
  | fault => fault

noncomputable def parseDefine (cursor : Cursor) : Run (Item × Cursor) := do
  let (matched, later) ← matchAll cursor
    [.text ['d', 'e', 'f', 'i', 'n', 'e'], .kind (some .identifier), .kind (some .numeric)] cursor
  if matched.length < 3 then throw (.document (.badDefine cursor.pos))
  match matched with
  | [_, name, value] =>
    let number ← handle (parseNumeral value 10) fun fault =>
      throw (asDefineFault name cursor.pos fault)
    let (_, last) ← splitLine later
    pure (.define name number, last)
  | other => throw (.wrongLength other.length)

noncomputable def readEnum (cursor : Cursor) :
    Run ((NameTable × Option Text) × Cursor) :=
  handle (parseEnum cursor) fun fault => throw (asEnumerationFault cursor.pos fault)

noncomputable def parseTypedef (cursor : Cursor) : Run (Item × Cursor) := do
  let ((members, tag), later) ← readEnum cursor
  let (second, behind) ← want (.kind (some .identifier)) later
  let (_, last) ← exhaust (.text [';']) behind
  pure (.enumeration ((second.map Token.textOf).toList ++ tag.toList) members, last)

/-- Reads an enumeration, stepping back to its keyword. -/
noncomputable def parseEnumItem (keyword : Token) (cursor : Cursor) :
    Run (Item × Cursor) := do
  let ((members, tag), later) ← readEnum (cursor.seek keyword.offset)
  let (_, last) ← exhaust (.text [';']) later
  pure (.enumeration tag.toList members, last)

noncomputable def parseFieldItem (start : Nat) (cursor : Cursor) :
    Run (Item × Cursor) := do
  let (stop, last) ← splitLine cursor
  let line := Text.replacePair '\\' '\n' [' '] (between cursor.buffer start stop)
  match ← parseField line with
  | none => throw (.document (.badField start line))
  | some field =>
    if field.isIndicator then
      match field.index with
      | some index => pure (.indicator index.toNat field, last)
      | none => throw .noPosition
    else pure (.field field, last)

noncomputable def parseItem (token : Token) (cursor : Cursor) : Run (Item × Cursor) :=
  if token.text = ['#'] then parseDefine cursor
  else if token.text = ['t', 'y', 'p', 'e', 'd', 'e', 'f'] then parseTypedef cursor
  else if token.text = Enumeration.keyword then parseEnumItem token cursor
  else parseFieldItem token.offset cursor

noncomputable def compileRound : Layout × Cursor → Run (Layout × Cursor ⊕ Layout)
  | (layout, cursor) => do
    match ← next cursor with
    | (none, _) => pure (.inr layout)
    | (some token, behind) =>
      let (item, later) ← parseItem token behind
      pure (.inl (layout.declare item, later))

noncomputable def ofText (text : Text) : Run Layout := do
  let declared ← loop compileRound (∅, Cursor.ofText text)
  pure (if declared.isEmpty then declared else declared.resolve)

/-- Compiles a text, or answers that it describes nothing. -/
noncomputable def compile? (text : Text) : Run (Option Layout) :=
  if Text.trim text = [] then pure none
  else do
    let layout ← ofText text
    pure (if layout.isEmpty then none else some layout)

/-! ## Macros -/

/-- A reading of the total reader as the end of a run. -/
def documentOutcome {α : Type} (read : Except (Failure DocumentError) α) : Except Fault α :=
  read.mapError (.ofFailure .document)

theorem length_matchAll_le (wants : List Want) (cursor : Cursor) :
    (cursor.matchAll wants).1.length ≤ wants.length := by
  show (Cursor.matchedTexts wants cursor).1.length ≤ wants.length
  induction wants generalizing cursor with
  | nil => exact Nat.le_refl 0
  | cons w wants ih =>
    simp only [Cursor.matchedTexts]
    split
    · exact Nat.succ_le_succ (ih cursor.next.2)
    · exact Nat.zero_le _

theorem parseDefine_eq (cursor : Cursor) :
    parseDefine cursor = settled (documentOutcome (Document.readDefine cursor)) := by
  unfold parseDefine Document.readDefine
  simp only [matchAll_eq, settled_ok_bind]
  have hlength := length_matchAll_le [.text ['d', 'e', 'f', 'i', 'n', 'e'],
    .kind (some .identifier), .kind (some .numeric)] cursor
  generalize Cursor.matchAll _ cursor = matched at hlength
  obtain ⟨texts, later⟩ := matched
  rcases texts with _ | ⟨keyword, _ | ⟨name, _ | ⟨value, _ | ⟨fourth, others⟩⟩⟩⟩
  · rfl
  · rfl
  · rfl
  · have hparse : Numeral.parse value 10 = Numeral.read .dec value := rfl
    simp only [List.length_cons, List.length_nil, Nat.lt_irrefl, if_false, parseNumeral_eq, hparse]
    rcases Numeral.read .dec value with (_ | _) | number
    · rfl
    · rfl
    · simp only [Except.mapError, handle_ok, settled_ok_bind, splitLine_eq]
      rfl
  · simp only [List.length_cons, List.length_nil] at hlength
    omega

/-! ## Enumerations -/

theorem readEnum_eq (cursor : Cursor) :
    readEnum cursor = settled (match Enumeration.read cursor with
      | (.ok enumeration, later) => .ok ((enumeration.members, enumeration.name), later)
      | (.error failure, _) =>
        .error (.ofFailure (fun e => .document (.badEnumeration cursor.pos e)) failure)) := by
  rw [readEnum, parseEnum_eq]
  rcases Enumeration.read cursor with ⟨(_ | _) | _, later⟩ <;> rfl

theorem parseTypedef_eq (cursor : Cursor) :
    parseTypedef cursor = settled (documentOutcome (Document.readTypedef cursor)) := by
  unfold parseTypedef Document.readTypedef
  rw [readEnum_eq]
  rcases Enumeration.read cursor with ⟨(_ | _) | enumeration, later⟩
  · rfl
  · rfl
  · simp only [settled_ok_bind, want_eq, exhaust_eq, Document.skipSemicolons]
    unfold Enumeration.readTag
    rcases later.want (.kind (some .identifier)) with ⟨_ | found, behind⟩ <;> rfl

theorem parseEnumItem_eq {cursor later : Cursor} {token : Token}
    (hnext : cursor.next = (some token, later)) (hkeyword : token.text = Enumeration.keyword) :
    parseEnumItem token later =
      settled (documentOutcome (Document.readEnumeration token.offset later)) := by
  unfold parseEnumItem Document.readEnumeration
  rw [readEnum_eq, Document.read_seek_keyword hnext hkeyword]
  rcases Enumeration.readBody later with ⟨(_ | _) | enumeration, behind⟩
  · rfl
  · rfl
  · simp only [settled_ok_bind, exhaust_eq]
    rfl

/-! ## Fields -/

theorem between_eq_slice (cursor : Cursor) (start stop : Nat) :
    between cursor.buffer start stop = cursor.slice (some start) (some stop) :=
  (cursor.slice_natCast start stop).symm

theorem isIndicator_of_ofContent {line : Text} {field : Field}
    (h : Field.ofContent line = .ok field) : field.isIndicator = field.index.isSome := by
  cases hindex : field.index with
  | none =>
    have := (Field.ofContent_ranged h hindex).1
    exact decide_eq_false (by omega)
  | some index => exact decide_eq_true (Field.ofContent_indicator h hindex).1

theorem parseFieldItem_eq (start : Nat) (cursor : Cursor) :
    parseFieldItem start cursor =
      settled (documentOutcome (Document.readField start cursor)) := by
  unfold parseFieldItem Document.readField
  simp only [splitLine_eq, settled_ok_bind, between_eq_slice, parseField_eq]
  generalize Text.replacePair '\\' '\n' [' '] _ = line
  rcases hfield : Field.ofContent line with (_ | _) | field
  · rfl
  · rfl
  · have hindicator := isIndicator_of_ofContent hfield
    simp only [optional, settled_ok_bind]
    cases hindex : field.index with
    | none =>
      rw [hindex] at hindicator
      simp only [hindicator]
      rfl
    | some index =>
      rw [hindex] at hindicator
      simp only [hindicator]
      rfl

/-! ## The loop over items -/

theorem parseItem_eq {cursor later : Cursor} {token : Token}
    (hnext : cursor.next = (some token, later)) :
    parseItem token later = settled (documentOutcome (Document.readItem token later)) := by
  unfold parseItem Document.readItem
  split
  · exact parseDefine_eq later
  · split
    · exact parseTypedef_eq later
    · split
      · next hkeyword => exact parseEnumItem_eq hnext hkeyword
      · exact parseFieldItem_eq token.offset later

/-- The loop over items, whose rank is what lies behind the cursor. -/
theorem compileLoop_eq (layout : Layout) (cursor : Cursor) :
    loop compileRound (layout, cursor) =
      settled (documentOutcome
        ((Document.readItems cursor).map fun items => items.foldl Layout.declare layout)) := by
  refine loop_eq (fun _ : Layout × Cursor => True) (fun s => s.2.remaining) (s := (layout, cursor))
    (r := fun s => documentOutcome
      ((Document.readItems s.2).map fun items => items.foldl Layout.declare s.1)) ?_ trivial
  rintro ⟨layout, cursor⟩ -
  rw [compileRound, next_eq, settled_ok_bind]
  rcases hnext : cursor.next with ⟨_ | token, behind⟩
  · refine Or.inr (Or.inl ⟨layout, rfl, ?_⟩)
    simp only [Document.readItems_of_none hnext]
    rfl
  · simp only [parseItem_eq hnext, Document.readItems_of_some hnext]
    cases hitem : Document.readItem token behind with
    | error e => exact Or.inr (Or.inr ⟨.ofFailure .document e, rfl, rfl⟩)
    | ok read =>
      obtain ⟨item, later⟩ := read
      refine Or.inl ⟨(layout.declare item, later), rfl, trivial, ?_, ?_⟩
      · exact Nat.lt_of_le_of_lt (Document.remaining_readItem hitem)
          (Cursor.remaining_next hnext)
      · dsimp only
        cases Document.readItems later <;> rfl

/-- **The compiler comes to an end** for every text, and ends as the total one does. -/
theorem ofText_eq (text : Text) :
    ofText text = settled (documentOutcome (Layout.ofText text)) := by
  rw [ofText, compileLoop_eq, Layout.ofText, Document.read]
  cases Document.readItems (Cursor.ofText text) <;> rfl

theorem ofText_of_trim {text : Text} (h : Text.trim text = []) : Layout.ofText text = .ok ∅ := by
  have hright : Text.trimRight text = [] := by
    rw [Text.trim, Text.trimLeft, List.dropWhile_eq_nil_iff, ← Text.trimRight_eq_nil_iff,
      Text.trimRight_trimRight] at h
    exact h
  have hnext : (Cursor.ofText text).next = (none, (Cursor.ofText text).finish) := by
    rw [Cursor.ofText, hright]
    rfl
  rw [Layout.ofText, Document.read, Document.readItems_of_none hnext]
  rfl

theorem compile?_eq (text : Text) :
    compile? text = settled (documentOutcome (Layout.compile? text)) := by
  unfold compile?
  split
  · next htrim =>
    rw [Layout.compile?, ofText_of_trim htrim]
    rfl
  · rw [ofText_eq, Layout.compile?]
    cases Layout.ofText text <;> rfl

/-! ## Totality -/

/-- What holds of compiling a text: both ways of compiling come to an end, and
they fail with an error of the description or not at all. -/
structure Total (text : Text) : Prop where
  ofText :
    (∃ layout, ofText text = settled (.ok layout) ∧ Layout.ofText text = .ok layout) ∨
    ∃ e, ofText text = settled (.error (.document e)) ∧ Layout.ofText text = .error (.refused e)
  compile? :
    (∃ layout?, compile? text = settled (.ok layout?) ∧
      Layout.compile? text = .ok layout?) ∨
    ∃ e, compile? text = settled (.error (.document e)) ∧
      Layout.compile? text = .error (.refused e)
  /-- No layout is answered exactly for one without fields and indicators. -/
  none_iff : Checked.compile? text = settled (.ok none) ↔
    ∃ layout, Checked.ofText text = settled (.ok layout) ∧
      layout.fields = [] ∧ layout.bits.keys = []
  width_of_none : ∀ layout, Checked.ofText text = settled (.ok layout) →
    layout.fields = [] → layout.bits.keys = [] → layout.width = 0

/-- **The compiler is total.** Whatever the text, as long as its numbers can be
converted, compiling it ends with a layout or with an error of the
description, although the cursor is moved backwards and past the end. -/
theorem total_of_digitsWithin {text : Text} (h : Text.DigitsWithin Numeral.mostDecimals text) :
    Total text := by
  have hofText := ofText_eq text
  have hcompile := compile?_eq text
  rw [Layout.compile?] at hcompile
  rcases hlayout : Layout.ofText text with (e | _) | layout
  · rw [hlayout] at hofText hcompile
    have hnoLayout : ∀ layout, ofText text ≠ settled (.ok layout) := by
      intro layout hok
      cases settled_inj.mp (hofText.symm.trans hok)
    have hnone : compile? text ≠ settled (.ok none) := by
      intro hok
      cases settled_inj.mp (hcompile.symm.trans hok)
    refine ⟨Or.inr ⟨e, hofText, hlayout⟩, Or.inr ⟨e, hcompile, ?_⟩, ?_, ?_⟩
    · rw [Layout.compile?, hlayout]
      rfl
    · exact iff_of_false hnone fun ⟨layout, hok, _⟩ => hnoLayout layout hok
    · exact fun layout hok => absurd hok (hnoLayout layout)
  · exact absurd hlayout (Layout.ofText_ne_tooLong h)
  · rw [hlayout] at hofText hcompile
    have hsame : ∀ other, ofText text = settled (.ok other) → layout = other := fun other hok =>
      Except.ok.inj (settled_inj.mp (hofText.symm.trans hok))
    refine ⟨Or.inl ⟨layout, hofText, hlayout⟩, Or.inl ⟨_, hcompile, ?_⟩, ?_, ?_⟩
    · rw [Layout.compile?, hlayout]
      rfl
    · constructor
      · intro hnone
        have hok : (if layout.isEmpty then none else some layout) = none :=
          Except.ok.inj (settled_inj.mp (hcompile.symm.trans hnone))
        refine ⟨layout, hofText, (Layout.isEmpty_iff layout).mp ?_⟩
        split at hok
        · assumption
        · cases hok
      · rintro ⟨other, hother, hempty⟩
        obtain rfl := hsame other hother
        rw [hcompile]
        show settled (.ok (if layout.isEmpty then none else some layout)) = settled (.ok none)
        rw [if_pos ((Layout.isEmpty_iff layout).mpr hempty)]
    · intro other hother hfields hbits
      obtain rfl := hsame other hother
      obtain ⟨items, -, rfl⟩ := map_eq_ok_iff.mp hlayout
      exact Layout.width_of_isEmpty ((Layout.isEmpty_iff _).mpr ⟨hfields, hbits⟩)

/-- A comment that is not closed, with a backslash at its end. -/
theorem total_of_open_comment :
    Text.DigitsWithin Numeral.mostDecimals "a:1\n/* b \\".toList ∧
      Total "a:1\n/* b \\".toList :=
  have h : Text.DigitsWithin Numeral.mostDecimals "a:1\n/* b \\".toList :=
    Text.DigitsWithin.of_length_le (by decide)
  ⟨h, total_of_digitsWithin h⟩

end Checked

end BitLayout
