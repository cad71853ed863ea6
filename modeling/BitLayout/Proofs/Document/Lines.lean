import BitLayout.Proofs.Cursor.OnLine
import BitLayout.Proofs.Cursor.Row
import BitLayout.Proofs.Document.Reading
import BitLayout.Proofs.Layout.Declared
import BitLayout.Proofs.Text.Joined

/-!
# Descriptions line by line

A description of macros and fields is read one line after the other: what
it declares is what its lines declare, put together in their order, and it
is refused if one of its lines is (`lines_ofText`). The lines are plain, and
none of them begins an enumeration.

There is one exception. A macro is read token by token, and a line feed is
only a blank to that. So a line that has the first tokens of a macro and
nothing else (`CutOff`) is not refused if there is a token below: the macro
goes on there, and what is left of the line where it ends is lost
(`lines_ofText_cutOff`).

A line is read the same way whatever stands below it (`exists_result`).
That is shown for a cursor in front of the line and any text behind it, so
it holds of the line on its own and of the line where it stands; the rest
is an induction over the lines.
-/

namespace BitLayout

namespace Document

open Text (PlainLine)
open Token (Absent)
open Cursor (OnLine)

/-! ## One line -/

/-- The tokens of a macro behind its number sign. -/
def macroWants : List Want :=
  [.text ['d', 'e', 'f', 'i', 'n', 'e'], .kind (some .identifier), .kind (some .numeric)]

/-- The line has the first tokens of a macro, but not all of them, and no others. -/
def CutOff (line : Text) : Prop :=
  ∃ n < 3, (Cursor.matchedTexts (.text ['#'] :: (macroWants.take n ++ [.kind none]))
    (Cursor.ofText line)).2.isSome = true

/-- The line begins neither an enumeration nor a type definition. -/
def NoEnumeration (line : Text) : Prop :=
  Token.textOf (Cursor.ofText line).next.1 ≠ Enumeration.keyword ∧
    Token.textOf (Cursor.ofText line).next.1 ≠ ['t', 'y', 'p', 'e', 'd', 'e', 'f']

instance (line : Text) : Decidable (CutOff line) :=
  inferInstanceAs (Decidable (∃ n < 3, _))

instance (line : Text) : Decidable (NoEnumeration line) :=
  inferInstanceAs (Decidable (_ ∧ _))

/-- What the reader of an item gives, with the text below ahead afterwards. -/
inductive Gives (rest : Text) : Reading Item → Option Item → Prop where
  | item {item : Item} {later : Cursor} (faces : later.Faces rest) :
      Gives rest (.ok (item, later)) (some item)
  | error {e : Failure DocumentError} : Gives rest (.error e) none

/-- The macro that the texts of its tokens describe. -/
def macro? : List Text → Option Item
  | [_, name, value] => (Numeral.read .dec value).toOption.map (.define name)
  | _ => none

theorem gives_readDefine {cursor later : Cursor} {texts : List Text} {rest : Text}
    (h : Cursor.matchedTexts macroWants cursor = (texts, some later))
    (hbelow : (later.split ['\n']).2.Faces rest) :
    Gives rest (readDefine cursor) (macro? texts) := by
  have hmatch : cursor.matchAll macroWants = (texts, later) := by
    rw [Cursor.matchAll, h]
    rfl
  unfold macroWants at hmatch
  simp only [readDefine, hmatch]
  rcases texts with _ | ⟨keyword, _ | ⟨name, _ | ⟨value, _ | ⟨fourth, others⟩⟩⟩⟩
  · exact .error
  · exact .error
  · exact .error
  · simp only [macro?]
    cases Numeral.read .dec value with
    | ok number => exact .item hbelow
    | error e => exact .error
  · exact .error

theorem gives_readDefine_none {cursor : Cursor} {rest : Text}
    (h : (Cursor.matchedTexts macroWants cursor).2 = none) :
    Gives rest (readDefine cursor) none := by
  have hlength : (cursor.matchAll macroWants).1.length ≠ 3 := by
    have hrow : cursor.row = cursor.row.drop 0 := rfl
    obtain ⟨htexts, hlast⟩ := Cursor.matchedTexts_row hrow macroWants
    rw [h, ← htexts] at hlast
    intro hthree
    have hall : (Cursor.matchedTexts macroWants cursor).1.length = macroWants.length := hthree
    rw [if_pos hall] at hlast
    cases hlast
  unfold macroWants at hlength
  simp only [readDefine]
  split
  · next heq =>
    rw [heq] at hlength
    exact absurd rfl hlength
  · exact .error

/-- The item that a field is. -/
def fieldItem (field : Field) : Item :=
  match field.index with
  | some index => .indicator index.toNat field
  | none => .field field

/-- What a cursor cuts out for a line is read as the line, with or without the white space at its
end. -/
theorem ofContent_joined {line slice : Text} (hline : ¬ ['\\', '\n'] <:+: line)
    (hslice : slice = line ∨ slice = Text.trimRight line) :
    Field.ofContent (Text.joined slice) = Field.ofContent line := by
  rcases hslice with rfl | rfl
  · rw [Text.joined_of_no_pair hline]
  · have htrim : ¬ ['\\', '\n'] <:+: Text.trimRight line :=
      fun hin => hline (hin.trans (Text.trimRight_isPrefix line).isInfix)
    rw [Text.joined_of_no_pair htrim, Field.ofContent_trimRight]

theorem gives_readField {cursor : Cursor} {start : Nat} {line rest : Text}
    (hline : ¬ ['\\', '\n'] <:+: line)
    (hslice : cursor.slice (some start) (some (cursor.split ['\n']).1) = line ∨
      cursor.slice (some start) (some (cursor.split ['\n']).1) = Text.trimRight line)
    (hbelow : (cursor.split ['\n']).2.Faces rest) :
    Gives rest (readField start cursor) ((Field.ofContent? line).map fieldItem) := by
  have hcontent := ofContent_joined hline hslice
  rw [Text.joined] at hcontent
  simp only [readField, hcontent, Field.ofContent?]
  cases Field.ofContent line with
  | error e => exact .error
  | ok field =>
    simp only [Except.toOption, Option.map_some, fieldItem]
    cases field.index with
    | none => exact .item hbelow
    | some index => exact .item hbelow

theorem macroWants_accepts : ∀ w ∈ macroWants, w.accepts none = false := by
  decide

/-- **One line.** Whatever stands below it, a line with something on it is read as
the same item or refused. Only where it cuts off a macro, nothing may stand
below. -/
theorem exists_result {line : Text} (hline : line.PlainLine) (henum : NoEnumeration line)
    (hne : Token.dropGap .between line ≠ []) :
    ∃ result : Option Item, ∀ {cursor : Cursor} {rest : Text},
      cursor.Faces (line ++ '\n' :: rest) → (CutOff line → Absent rest) →
      ∃ token behind, cursor.next = (some token, behind) ∧
        Gives rest (readItem token behind) result := by
  obtain ⟨kind, word, tail, hfront⟩ := Token.exists_lineFront hline hne
  have hwhole : PlainLine (word ++ tail) := hline.of_infix hfront.suffix.isInfix
  have htail : PlainLine tail := hfront.plain_tail hline
  obtain ⟨alone, behindAlone, hnextAlone, honAlone, -⟩ :=
    (Cursor.faces_line line).next_line hline hfront
  by_cases hmark : word = ['#']
  · subst hmark
    have hread : ∀ {kind offset behind},
        readItem ⟨kind, ['#'], offset⟩ behind = readDefine behind := rfl
    cases Cursor.rowOn macroWants_accepts htail with
    | all texts read =>
      refine ⟨macro? texts, fun {cursor rest} h _ => ?_⟩
      obtain ⟨offset, behind, hnext, hon, -⟩ := h.next_line hline hfront
      obtain ⟨later, hmatched, hbelow⟩ := read hon
      exact ⟨_, behind, hnext, hread ▸ gives_readDefine hmatched hbelow⟩
    | other read =>
      refine ⟨none, fun {cursor rest} h _ => ?_⟩
      obtain ⟨offset, behind, hnext, hon, -⟩ := h.next_line hline hfront
      exact ⟨_, behind, hnext, hread ▸ gives_readDefine_none (read hon)⟩
    | short n hn read =>
      have hcut : CutOff line := by
        refine ⟨n, hn, ?_⟩
        have hsome := read honAlone rfl
        have haccepts : Want.accepts (.text ['#']) (some ⟨kind, ['#'], alone⟩) = true := rfl
        simp only [Cursor.matchedTexts, hnextAlone, haccepts, hsome, if_true]
      refine ⟨none, fun {cursor rest} h habsent => ?_⟩
      obtain ⟨offset, behind, hnext, hon, -⟩ := h.next_line hline hfront
      have hnone := Cursor.matchedTexts_of_short macroWants_accepts hn (read hon (habsent hcut))
      exact ⟨_, behind, hnext, hread ▸ gives_readDefine_none hnone⟩
  · have hkeyword : word ≠ Enumeration.keyword ∧ word ≠ ['t', 'y', 'p', 'e', 'd', 'e', 'f'] := by
      unfold NoEnumeration at henum
      rwa [hnextAlone] at henum
    refine ⟨(Field.ofContent? (word ++ tail)).map fieldItem, fun {cursor rest} h _ => ?_⟩
    obtain ⟨offset, behind, hnext, hon, hslice⟩ := h.next_line hline hfront
    refine ⟨_, behind, hnext, ?_⟩
    rw [readItem, if_neg hmark, if_neg hkeyword.2, if_neg hkeyword.1]
    have hpair : ¬ ['\\', '\n'] <:+: word ++ tail :=
      fun hin => hwhole.oneLine (hin.subset (by simp))
    exact gives_readField hpair hslice hon.below

/-- A line that cuts off a macro is refused. -/
theorem error_of_cutOff {line : Text} (h : CutOff line) : ∃ e, read line = .error e := by
  obtain ⟨n, hn, hsome⟩ := h
  rw [Cursor.matchedTexts] at hsome
  split at hsome
  · next haccepts =>
    rcases hnext : (Cursor.ofText line).next with ⟨_ | token, behind⟩
    · rw [hnext] at haccepts
      cases haccepts
    · rw [hnext] at haccepts hsome
      have hmark : token.text = ['#'] := eq_of_beq haccepts
      have hgives : Gives [] (readDefine behind) none :=
        gives_readDefine_none (Cursor.matchedTexts_of_short macroWants_accepts hn hsome)
      rw [read, readItems_of_some hnext, readItem, if_pos hmark]
      generalize readDefine behind = reading at hgives
      cases hgives
      exact ⟨_, rfl⟩
  · cases hsome

/-! ## All lines -/

theorem readItems_absent {cursor : Cursor} {text : Text} (h : cursor.Faces text)
    (habsent : Absent text) : readItems cursor = .ok [] :=
  readItems_of_none (Prod.ext (h.next_absent habsent) rfl)

/-- A line is refused where it stands if it is on its own, or else adds the items
that it has on its own. -/
theorem readItems_line {cursor : Cursor} {line rest : Text} (hline : line.PlainLine)
    (henum : NoEnumeration line) (h : cursor.Faces (line ++ '\n' :: rest))
    (hcut : CutOff line → Absent rest) :
    ((∃ e, read line = .error e) ∧ ∃ e, readItems cursor = .error e) ∨
      ∃ items later, items.length ≤ 1 ∧ read line = .ok items ∧ later.Faces rest ∧
        readItems cursor = (readItems later).map (items ++ ·) := by
  by_cases hblank : Token.dropGap .between line = []
  · refine Or.inr ⟨[], cursor, Nat.zero_le 1, ?_, h.below_blank hline hblank, ?_⟩
    · exact readItems_absent ((Cursor.faces_line line).below_blank hline hblank) rfl
    · cases readItems cursor with
      | error e => rfl
      | ok items => rfl
  · obtain ⟨result, hresult⟩ := exists_result hline henum hblank
    obtain ⟨first, behindFirst, hfirst, halone⟩ :=
      hresult (Cursor.faces_line line) fun _ => rfl
    obtain ⟨token, behind, hnext, hgives⟩ := hresult h hcut
    rw [read, readItems_of_some hfirst, readItems_of_some hnext]
    generalize readItem first behindFirst = alone at halone
    generalize readItem token behind = reading at hgives
    cases result with
    | none =>
      cases halone
      cases hgives
      exact Or.inl ⟨⟨_, rfl⟩, ⟨_, rfl⟩⟩
    | some item =>
      obtain ⟨hend⟩ := halone
      obtain ⟨hlater⟩ := hgives
      refine Or.inr ⟨[item], _, Nat.le_refl 1, ?_, hlater, rfl⟩
      exact congrArg (Except.map (item :: ·)) (readItems_absent hend rfl)

theorem absent_lines {lines : List Text} (hlines : ∀ line ∈ lines, line.PlainLine)
    (hblank : ∀ line ∈ lines, Token.dropGap .between line = []) :
    Absent (lines.flatMap (· ++ ['\n'])) := by
  have hgap : Token.dropGap .between (lines.flatMap (· ++ ['\n'])) = [] := by
    induction lines with
    | nil => rfl
    | cons line lines ih =>
      rw [List.flatMap_cons, List.append_assoc, List.singleton_append,
        Token.dropGap_plainLine (hlines line List.mem_cons_self),
        if_pos (hblank line List.mem_cons_self)]
      exact ih (fun other hother => hlines other (List.mem_cons_of_mem line hother))
        (fun other hother => hblank other (List.mem_cons_of_mem line hother))
  rw [Absent, hgap]
  rfl

/-- Plain lines that do not begin an enumeration. -/
def AllPlain (lines : List Text) : Prop :=
  ∀ line ∈ lines, line.PlainLine ∧ NoEnumeration line

instance (lines : List Text) : Decidable (AllPlain lines) :=
  inferInstanceAs (Decidable (∀ line ∈ lines, _))

/-- Below a line that cuts off a macro there is nothing. -/
def NoneContinued (lines : List Text) : Prop :=
  lines.Pairwise fun line below => CutOff line → Token.dropGap .between below = []

instance (lines : List Text) : Decidable (NoneContinued lines) :=
  inferInstanceAs (Decidable (lines.Pairwise _))

/-- **All lines**, by induction: the items are those of the single lines. -/
theorem readItems_lines {lines : List Text} (hlines : AllPlain lines)
    (hcut : NoneContinued lines) {cursor : Cursor}
    (h : cursor.Faces (lines.flatMap (· ++ ['\n']))) (items : List Item) :
    readItems cursor = .ok items ↔
      ∃ parts, List.Forall₂ (fun line part => read line = .ok part) lines parts ∧
        items = parts.flatten := by
  induction lines generalizing cursor items with
  | nil =>
    rw [readItems_absent h rfl]
    constructor
    · rintro ⟨⟩
      exact ⟨[], .nil, rfl⟩
    · rintro ⟨parts, hparts, rfl⟩
      cases hparts
      rfl
  | cons line lines ih =>
    obtain ⟨hline, henum⟩ := hlines line List.mem_cons_self
    have hbelow : AllPlain lines := fun other hother =>
      hlines other (List.mem_cons_of_mem line hother)
    obtain ⟨hfirst, hothers⟩ := List.pairwise_cons.mp hcut
    rw [List.flatMap_cons, List.append_assoc, List.singleton_append] at h
    have habsent : CutOff line → Absent (lines.flatMap (· ++ ['\n'])) := fun hcutOff =>
      absent_lines (fun other hother => (hbelow other hother).1)
        fun other hother => hfirst other hother hcutOff
    rcases readItems_line hline henum h habsent with
      ⟨⟨e, hread⟩, e', hitems⟩ | ⟨part, later, -, hread, hlater, hitems⟩
    · rw [hitems]
      constructor
      · rintro ⟨⟩
      · rintro ⟨parts, hparts, -⟩
        obtain ⟨part, others, hpart, -, -⟩ := List.forall₂_cons_left_iff.mp hparts
        cases hread.symm.trans hpart
    · rw [hitems]
      constructor
      · intro hok
        cases hrest : readItems later with
        | error e =>
          rw [hrest] at hok
          cases hok
        | ok rest =>
          rw [hrest] at hok
          obtain ⟨parts, hparts, rfl⟩ := (ih hbelow hothers hlater rest).mp hrest
          obtain rfl : part ++ parts.flatten = items := Except.ok.inj hok
          exact ⟨part :: parts, .cons hread hparts, rfl⟩
      · rintro ⟨parts, hparts, rfl⟩
        obtain ⟨first, others, hpart, hparts', rfl⟩ := List.forall₂_cons_left_iff.mp hparts
        obtain rfl : part = first := Except.ok.inj (hread.symm.trans hpart)
        rw [(ih hbelow hothers hlater others.flatten).mpr ⟨others, hparts', rfl⟩]
        rfl

theorem read_lines {lines : List Text} (hlines : AllPlain lines) (hcut : NoneContinued lines)
    (items : List Item) :
    read (Text.joinWith ['\n'] lines) = .ok items ↔
      ∃ parts, List.Forall₂ (fun line part => read line = .ok part) lines parts ∧
        items = parts.flatten := by
  have hcursor : Cursor.ofText (Text.joinWith ['\n'] lines) =
      Cursor.ofText (lines.flatMap (· ++ ['\n'])) := by
    rw [Cursor.ofText, Cursor.ofText, Text.trimRight_joinWith]
  rw [read, hcursor]
  exact readItems_lines hlines hcut (Cursor.faces_ofText _) items

/-- A line has one item at most. -/
theorem length_read_line {line : Text} (hline : line.PlainLine) (henum : NoEnumeration line)
    {items : List Item} (h : read line = .ok items) : items.length ≤ 1 := by
  rcases readItems_line hline henum (Cursor.faces_line line) fun _ => rfl with
    ⟨⟨e, hread⟩, -⟩ | ⟨part, later, hlength, hread, -, -⟩
  · cases hread.symm.trans h
  · obtain rfl : part = items := Except.ok.inj (hread.symm.trans h)
    exact hlength

theorem length_parts {lines : List Text} (hlines : AllPlain lines) {parts : List (List Item)}
    (h : List.Forall₂ (fun line part => read line = .ok part) lines parts) :
    ∀ part ∈ parts, part.length ≤ 1 := by
  induction h with
  | nil => exact fun part hpart => absurd hpart List.not_mem_nil
  | @cons line part lines parts hread hparts ih =>
    obtain ⟨hline, henum⟩ := hlines line List.mem_cons_self
    intro other hother
    rcases List.mem_cons.mp hother with rfl | hother
    · exact length_read_line hline henum hread
    · exact ih (fun below hbelow => hlines below (List.mem_cons_of_mem line hbelow)) other hother

/-- Accepted lines cut off nothing. -/
theorem noneContinued_of_read {lines : List Text} {parts : List (List Item)}
    (h : List.Forall₂ (fun line part => read line = .ok part) lines parts) :
    NoneContinued lines := by
  induction h with
  | nil => exact .nil
  | @cons line part lines parts hread hparts ih =>
    refine .cons (fun below _ hcutOff => ?_) ih
    obtain ⟨e, herror⟩ := error_of_cutOff hcutOff
    cases herror.symm.trans hread

end Document

namespace Layout

open Document (AllPlain CutOff NoneContinued)

/-! ## What lines declare -/

/-- What a text declares, before anything is placed. -/
def declaredBy (text : Text) : Except (Failure DocumentError) Layout :=
  (Document.read text).map declareAll

theorem ofText_eq_resolve (text : Text) : ofText text = (declaredBy text).map resolve := by
  rw [ofText, declaredBy]
  cases Document.read text with
  | error e => rfl
  | ok items => exact congrArg Except.ok (ofItems_eq_resolve items)

/-- What single lines declare, put together in their order. -/
structure Merged (singles : List Layout) (whole : Layout) : Prop where
  fields : whole.fields = singles.flatMap Layout.fields
  bits : whole.bits = singles.foldl (fun bits single => bits.merge single.bits) ∅
  macros : whole.enumTypes.macros =
    singles.foldl (fun macros single => macros.merge single.enumTypes.macros) ∅

theorem foldl_declare_short {part : List Item} (h : part.length ≤ 1) (layout : Layout) :
    (part.foldl declare layout).bits = layout.bits.merge (declareAll part).bits ∧
      (part.foldl declare layout).enumTypes.macros =
        layout.enumTypes.macros.merge (declareAll part).enumTypes.macros := by
  rcases part with _ | ⟨item, _ | ⟨other, others⟩⟩
  · exact ⟨rfl, rfl⟩
  · cases item with
    | define name value => exact ⟨rfl, rfl⟩
    | enumeration names members =>
      refine ⟨rfl, ?_⟩
      cases names with
      | nil =>
        show layout.enumTypes.macros.merge members =
          layout.enumTypes.macros.merge ((∅ : NameTable).merge members)
        rw [Table.empty_merge]
      | cons name names => rfl
    | field field => exact ⟨rfl, rfl⟩
    | indicator index field => exact ⟨rfl, rfl⟩
  · simp only [List.length_cons] at h
    omega

theorem foldl_declare_flatten {parts : List (List Item)} (h : ∀ part ∈ parts, part.length ≤ 1)
    (layout : Layout) :
    (parts.flatten.foldl declare layout).bits =
        (parts.map declareAll).foldl (fun bits single => bits.merge single.bits) layout.bits ∧
      (parts.flatten.foldl declare layout).enumTypes.macros =
        (parts.map declareAll).foldl
          (fun macros single => macros.merge single.enumTypes.macros)
          layout.enumTypes.macros := by
  induction parts generalizing layout with
  | nil => exact ⟨rfl, rfl⟩
  | cons part parts ih =>
    obtain ⟨hbits, hmacros⟩ := foldl_declare_short (h part List.mem_cons_self) layout
    obtain ⟨hbits', hmacros'⟩ := ih (fun other hother => h other (List.mem_cons_of_mem part hother))
      (part.foldl declare layout)
    rw [List.flatten_cons, List.foldl_append, List.map_cons, List.foldl_cons, List.foldl_cons,
      ← hbits, ← hmacros]
    exact ⟨hbits', hmacros'⟩

theorem merged_declareAll {parts : List (List Item)} (h : ∀ part ∈ parts, part.length ≤ 1) :
    Merged (parts.map declareAll) (declareAll parts.flatten) where
  fields := by
    rw [declareAll_fields, List.filterMap_flatten, List.flatMap_map, List.flatMap]
    refine congrArg List.flatten (List.map_congr_left fun part _ => ?_)
    exact (declareAll_fields part).symm
  bits := (foldl_declare_flatten h ∅).1
  macros := (foldl_declare_flatten h ∅).2

theorem exists_parts {lines : List Text} {singles : List Layout}
    (h : List.Forall₂ (fun line single => declaredBy line = .ok single) lines singles) :
    ∃ parts, List.Forall₂ (fun line part => Document.read line = .ok part) lines parts ∧
      singles = parts.map declareAll := by
  induction h with
  | nil => exact ⟨[], .nil, rfl⟩
  | @cons line single lines singles hdeclared hothers ih =>
    obtain ⟨parts, hparts, rfl⟩ := ih
    cases hread : Document.read line with
    | error e =>
      rw [declaredBy, hread] at hdeclared
      cases hdeclared
    | ok part =>
      rw [declaredBy, hread] at hdeclared
      obtain rfl : declareAll part = single := Except.ok.inj hdeclared
      exact ⟨part :: parts, .cons hread hparts, rfl⟩

/-- **A description is a sequence of lines.** Where each line is accepted, their whole
is, and declares what they declare, put together. And each line is accepted
where the whole is, unless a macro goes on below its line. -/
theorem lines_ofText {lines : List Text} (hlines : AllPlain lines) :
    (∀ singles, List.Forall₂ (fun line single => declaredBy line = .ok single) lines singles →
      ∃ whole, ofText (Text.joinWith ['\n'] lines) = .ok whole.resolve ∧ Merged singles whole) ∧
    (NoneContinued lines → ∀ layout, ofText (Text.joinWith ['\n'] lines) = .ok layout →
      ∀ line ∈ lines, ∃ single, ofText line = .ok single) := by
  constructor
  · intro singles hsingles
    obtain ⟨parts, hparts, rfl⟩ := exists_parts hsingles
    have hread : Document.read (Text.joinWith ['\n'] lines) = .ok parts.flatten :=
      (Document.read_lines hlines (Document.noneContinued_of_read hparts) _).mpr
        ⟨parts, hparts, rfl⟩
    refine ⟨declareAll parts.flatten, ?_, merged_declareAll (Document.length_parts hlines hparts)⟩
    rw [ofText_eq_resolve, declaredBy, hread]
    rfl
  · intro hcut layout hlayout
    cases hread : Document.read (Text.joinWith ['\n'] lines) with
    | error e =>
      rw [ofText, hread] at hlayout
      cases hlayout
    | ok items =>
      obtain ⟨parts, hparts, -⟩ := (Document.read_lines hlines hcut items).mp hread
      have haccepted : List.Forall₂ (fun line part =>
          (∃ single, ofText line = .ok single) ∧ Document.read line = .ok part) lines parts := by
        refine hparts.imp fun line part hpart => ⟨⟨ofItems part, ?_⟩, hpart⟩
        rw [ofText, hpart]
        rfl
      exact ((List.forall₂_and_left _ _).mp haccepted).1

/-- A macro, a field that refers to it, an empty line and an indicator. -/
theorem lines_ofText_four :
    let lines := ["#define RED 1".toList, "a:2::red".toList, [], "b:~4".toList]
    let singles : List Layout :=
      [{ fields := [], bits := ∅, enumTypes := ⟨Table.ofList [("RED".toList, 1)], ∅⟩, width := 0 },
       { fields := [⟨['a'], 2, none, none, ["red".toList], none, ∅⟩], bits := ∅, enumTypes := ∅,
         width := 0 },
       ∅,
       { fields := [], bits := Table.ofList [(4, ⟨['b'], 0, some 4, none, [], none, ∅⟩)],
         enumTypes := ∅, width := 0 }]
    AllPlain lines ∧ NoneContinued lines ∧
      List.Forall₂ (fun line single => declaredBy line = .ok single) lines singles ∧
      (∃ whole, ofText (Text.joinWith ['\n'] lines) = .ok whole.resolve ∧ Merged singles whole) ∧
      ∀ line ∈ lines, ∃ single, ofText line = .ok single := by
  intro lines singles
  have hlines : AllPlain lines := by decide +kernel
  have hcut : NoneContinued lines := by decide +kernel
  have hsingles :
      List.Forall₂ (fun line single => declaredBy line = .ok single) lines singles := by
    refine .cons ?_ (.cons ?_ (.cons ?_ (.cons ?_ .nil)))
    · decide +kernel
    · decide +kernel
    · decide +kernel
    · decide +kernel
  obtain ⟨hmerged, haccepted⟩ := lines_ofText hlines
  obtain ⟨whole, hwhole, hmerge⟩ := hmerged singles hsingles
  exact ⟨hlines, hcut, hsingles, ⟨whole, hwhole, hmerge⟩, haccepted hcut _ hwhole⟩

/-- A macro without a number takes it from the line below, and what is left of that
line is lost. The first line on its own is refused. -/
theorem lines_ofText_cutOff :
    let lines := ["#define A".toList, "5:3".toList]
    let layout : Layout :=
      { fields := []
        bits := ∅
        enumTypes := ⟨Table.ofList [(['A'], 5)], ∅⟩
        width := 0 }
    AllPlain lines ∧ CutOff "#define A".toList ∧
      ofText (Text.joinWith ['\n'] lines) = .ok layout ∧
      ofText "#define A".toList = .error (.refused (.badDefine 1)) ∧
      ofText "5:3".toList =
        .ok { fields := [⟨['5'], 3, some 0, none, [], none, ∅⟩]
              bits := ∅
              enumTypes := ∅
              width := 3 } := by
  refine ⟨by decide +kernel, by decide +kernel, ?_, ?_, ?_⟩
  · decide +kernel
  · decide +kernel
  · decide +kernel

end Layout

end BitLayout
