import BitLayout.Proofs.Checked.Cursor
import BitLayout.Proofs.Numeral.RoundTrip

/-!
# Numerals and field lines by positions

A text becomes a number by a conversion that is refused unless the text
consists of digits, and not of too many. So the runs of this module ask
first: for a numeral, whether its letters, in lower case, are digits of
the base; for a field, whether a segment consists of digits and of ASCII
characters alone. What they ask is enough: the conversion is not refused
in a text whose digits keep the limit.
-/

namespace BitLayout

namespace Checked

open Run

/-! ## The runs -/

/-- Converts digits. There have to be some, and not too many. -/
def toNumber (radix : Radix) (digits : Text) : Run Nat :=
  if digits = [] ∨ ¬ digits.all (Numeral.isDigitOf radix) then throw (.notDigits digits)
  else if Numeral.TooMany radix digits then throw .tooLong
  else pure (Numeral.ofDigits radix digits)

/-- The digits of all bases; each base has as many of them as it counts. -/
def allDigits : Text :=
  ['0', '1', '2', '3', '4', '5', '6', '7', '8', '9', 'a', 'b', 'c', 'd', 'e', 'f']

/-- Converts what is asked first to consist of digits, in either case. -/
def parseDigits (text digits : Text) (radix : Radix) : Run Nat :=
  if digits = [] ∨ digits.any fun c => !(allDigits.take radix.base).contains c.toLower then
    throw (.numeral (.badDigits radix text))
  else toNumber radix digits

/-- The base that two characters announce, if they do. -/
def prefixRadix? (mark : Text) : Option Radix :=
  if mark.map Char.toLower = ['0', 'b'] then some .bin
  else if mark.map Char.toLower = ['0', 'o'] then some .oct
  else if mark.map Char.toLower = ['0', 'x'] then some .hex
  else none

/-- Whether a text is a zero with another digit behind it. -/
def startsOctal (body : Text) : Run Bool :=
  if 1 < body.length then do
    let zero ← charAt body 0
    if zero = '0' then
      let digit ← charAt body 1
      pure (Text.isDigit digit)
    else pure false
  else pure false

/-- Reads a numeral without a sign, as a part of the text that an error
tells. -/
def parseBody (text body : Text) (radix : Radix) : Run Nat :=
  match prefixRadix? (body.take 2) with
  | some announced => parseDigits text (body.drop 2) announced
  | none => do
    if ← startsOctal body then parseDigits text (body.drop 1) .oct
    else parseDigits text body radix

/-- Reads a numeral in a base, which is checked first. -/
def parseNumeral (text : Text) (base : Int) : Run Int :=
  match Radix.ofBase base with
  | .error e => throw (.ofFailure .numeral e)
  | .ok radix => do
    let trimmed := Text.trim text
    let negative := startsAt trimmed ['-'] 0
    let value ← parseBody trimmed (if negative then trimmed.drop 1 else trimmed) radix
    pure (if negative then -(value : Int) else value)

/-- The pieces between separators, cut from the left at most `count` times. -/
def splitAtMost (sep : Char) : Nat → Text → List Text
  | 0, text => [text]
  | count + 1, text =>
    if sep ∈ text then
      text.takeWhile (· ≠ sep) :: splitAtMost sep count ((text.dropWhile (· ≠ sep)).drop 1)
    else [text]

/-- Every character is a digit of some script, and an ASCII character. -/
def isAsciiNumber (text : Text) : Bool :=
  text ≠ [] && text.all (fun c => c.toNat < 128) && text.all Text.isDigit

/-- What a width segment says; nothing, where it is not one. -/
def parseExtent (width : Text) : Run (Option Field.Extent) :=
  if width = [] then pure (some (.bits 1))
  else do
    let first ← charAt width 0
    if ¬ Text.isAsciiDigit first then
      let rest := Text.trim (width.drop 1)
      if ¬ isAsciiNumber rest then pure none
      else
        let index ← toNumber .dec rest
        pure (some (.indicator index))
    else if ¬ isAsciiNumber width then pure none
    else
      let count ← toNumber .dec width
      pure (if count = 0 then none else some (.bits count))

/-- Reads the line of a field, which is taken apart into five segments. -/
def parseField (line : Text) : Run (Option Field) := do
  let segments := (splitAtMost ':' 4 (Text.trim line)).map Text.trim
  match segments ++ List.replicate (5 - segments.length) [] with
  | [name, width, color, refs, comment] =>
    let extent? ← parseExtent width
    pure (extent?.map fun extent =>
      { name := name
        width := match extent with
          | .bits count => count
          | .indicator _ => 0
        index := match extent with
          | .bits _ => none
          | .indicator index => some index
        color := Field.nonempty? color
        enumRefs := Field.readRefs refs
        comment := Field.nonempty? (Text.replacePair '\\' 'n' ['\n'] comment)
        enums := ∅ })
  | other => throw (.wrongLength other.length)

/-! ## Digits -/

/-- A character is a digit when its lower case is among those of the base. -/
theorem contains_toLower (radix : Radix) (c : Char) :
    (allDigits.take radix.base).contains c.toLower = Numeral.isDigitOf radix c := by
  by_cases hc : c.toNat < 128
  · refine Text.ascii_cases (P := fun c =>
      (allDigits.take radix.base).contains c.toLower = Numeral.isDigitOf radix c) ?_ hc
    cases radix <;> decide
  · rw [Text.toLower_of_not_ascii hc, Numeral.isDigitOf, Numeral.digitValue?_of_not_ascii hc,
      Option.any_none, Bool.eq_false_iff]
    intro hmem
    have hall : allDigits.all (fun d => d.toNat < 128) = true := rfl
    exact hc (of_decide_eq_true
      (List.all_eq_true.mp hall c (List.mem_of_mem_take (List.elem_iff.mp hmem))))

/-- The characters whose lower case counts in a mark, with their capitals. -/
def markPairs : List (Char × Char) :=
  [('0', '0'), ('b', 'B'), ('o', 'O'), ('x', 'X')]

theorem toLower_eq_iff (pair : Char × Char) (hpair : pair ∈ markPairs) (c : Char) :
    c.toLower = pair.1 ↔ c = pair.1 ∨ c = pair.2 := by
  by_cases hc : c.toNat < 128
  · exact Text.ascii_cases (P := fun c =>
      ∀ pair ∈ markPairs, c.toLower = pair.1 ↔ c = pair.1 ∨ c = pair.2) (by decide) hc pair hpair
  · rw [Text.toLower_of_not_ascii hc]
    have hcapital : ∀ pair ∈ markPairs, pair.2.toNat < 128 := by decide
    refine ⟨Or.inl, fun h => h.resolve_right ?_⟩
    rintro rfl
    exact hc (hcapital pair hpair)

/-! ## Numerals -/

/-- The conversion fails for nothing but the number of digits. -/
theorem toNumber_eq {digits : Text} {radix : Radix} (hne : digits ≠ [])
    (hall : digits.all (Numeral.isDigitOf radix) = true) :
    toNumber radix digits =
      settled (if Numeral.TooMany radix digits then .error .tooLong
        else .ok (Numeral.ofDigits radix digits)) := by
  rw [toNumber, if_neg (by simp [hne, hall])]
  split <;> rfl

theorem parseDigits_eq (text digits : Text) (radix : Radix) :
    parseDigits text digits radix =
      settled (match Numeral.ofDigits? radix digits with
        | some n => if Numeral.TooMany radix digits then .error .tooLong else .ok n
        | none => .error (.numeral (.badDigits radix text))) := by
  simp only [parseDigits, contains_toLower, Numeral.ofDigits?]
  by_cases hok : digits ≠ [] ∧ digits.all (Numeral.isDigitOf radix) = true
  · rw [if_pos hok, if_neg]
    · exact toNumber_eq hok.1 hok.2
    rintro (hnil | hany)
    · exact hok.1 hnil
    · obtain ⟨c, hc, hnot⟩ := List.any_eq_true.mp hany
      rw [List.all_eq_true.mp hok.2 c hc] at hnot
      cases hnot
  · rw [if_pos, if_neg hok]
    · rfl
    · rcases Decidable.not_and_iff_or_not.mp hok with hnil | hall
      · exact Or.inl (Decidable.not_not.mp hnil)
      · refine Or.inr ?_
        rw [Bool.not_eq_true, List.all_eq_false] at hall
        obtain ⟨c, hc, hnot⟩ := hall
        exact List.any_eq_true.mpr ⟨c, hc, by simp [hnot]⟩

theorem prefixRadix?_pair (c d : Char) :
    prefixRadix? [c, d] =
      if c = '0' ∧ (d = 'b' ∨ d = 'B') then some .bin
      else if c = '0' ∧ (d = 'o' ∨ d = 'O') then some .oct
      else if c = '0' ∧ (d = 'x' ∨ d = 'X') then some .hex
      else none := by
  have hzero := toLower_eq_iff ('0', '0') (by decide) c
  have hb := toLower_eq_iff ('b', 'B') (by decide) d
  have ho := toLower_eq_iff ('o', 'O') (by decide) d
  have hx := toLower_eq_iff ('x', 'X') (by decide) d
  simp only [prefixRadix?, List.map_cons, List.map_nil, List.cons.injEq, and_true, hzero, hb, ho,
    hx, or_self]

/-- The marks and the octal zero are told apart as in `Numeral.announced`. -/
theorem announced_eq (otherwise : Radix) (body : Text) :
    match prefixRadix? (body.take 2) with
    | some radix => Numeral.announced otherwise body = (radix, body.drop 2)
    | none => ∃ octal, startsOctal body = settled (.ok octal) ∧
        Numeral.announced otherwise body =
          if octal then (.oct, body.drop 1) else (otherwise, body) := by
  match body with
  | [] => exact ⟨false, rfl, rfl⟩
  | [c] =>
    have hnone : prefixRadix? [c] = none := by simp [prefixRadix?]
    rw [List.take_of_length_le (by simp), hnone]
    refine ⟨false, rfl, ?_⟩
    rw [Numeral.announced]
    · rfl
    · intro d t ht
      cases (List.cons.inj ht).2
  | c :: d :: rest =>
    rw [List.take_succ_cons, List.take_succ_cons, List.take_zero, prefixRadix?_pair]
    by_cases hc : c = '0'
    · subst hc
      rw [Numeral.announced]
      by_cases hb : d = 'b' ∨ d = 'B'
      · simp [hb]
      · by_cases ho : d = 'o' ∨ d = 'O'
        · simp [hb, ho]
        · by_cases hx : d = 'x' ∨ d = 'X'
          · simp [hb, ho, hx]
          · simp only [hb, ho, hx, and_false, if_false]
            exact ⟨Text.isDigit d, rfl, rfl⟩
    · simp only [hc, false_and, if_false]
      refine ⟨false, ?_, Numeral.announced_of_ne_zero hc⟩
      show (if c = '0' then _ else _) = _
      rw [if_neg hc]
      rfl

theorem parseBody_eq (text body : Text) (otherwise : Radix) :
    parseBody text body otherwise =
      settled ((Numeral.readMagnitude otherwise body).mapError
        (.ofFailure fun radix => .numeral (.badDigits radix text))) := by
  have hmagnitude : ∀ radix digits, Numeral.announced otherwise body = (radix, digits) →
      parseDigits text digits radix =
        settled ((Numeral.readMagnitude otherwise body).mapError
          (.ofFailure fun radix => .numeral (.badDigits radix text))) := by
    intro radix digits hannounced
    rw [parseDigits_eq, Numeral.readMagnitude, hannounced]
    dsimp only
    cases Numeral.ofDigits? radix digits with
    | none => rfl
    | some n =>
      dsimp only
      split <;> rfl
  have hannounced := announced_eq otherwise body
  unfold parseBody
  cases hmark : prefixRadix? (body.take 2) with
  | some radix =>
    rw [hmark] at hannounced
    exact hmagnitude radix _ hannounced
  | none =>
    rw [hmark] at hannounced
    obtain ⟨octal, hoctal, hannounced⟩ := hannounced
    simp only [hoctal, settled_ok_bind]
    cases octal with
    | true => exact hmagnitude _ _ hannounced
    | false => exact hmagnitude _ _ hannounced

theorem parseNumeral_eq (text : Text) (base : Int) :
    parseNumeral text base =
      settled ((Numeral.parse text base).mapError (.ofFailure .numeral)) := by
  unfold parseNumeral Numeral.parse
  cases hradix : Radix.ofBase base with
  | error e => rfl
  | ok radix =>
    show _ = settled ((Numeral.read radix text).mapError (.ofFailure .numeral))
    rw [Numeral.read]
    dsimp only
    cases hstart : startsAt (Text.trim text) ['-'] 0 with
    | true =>
      obtain ⟨body, hbody⟩ := startsAt_iff.mp hstart
      rw [List.drop_zero] at hbody
      rw [hbody, if_pos rfl]
      simp only [List.singleton_append, List.drop_one, List.tail_cons]
      rw [parseBody_eq]
      rcases Numeral.readMagnitude radix body with (_ | _) | _ <;> rfl
    | false =>
      simp only [Bool.false_eq_true, if_false]
      rw [parseBody_eq]
      split
      · next body hbody =>
        rw [startsAt_iff.mpr ⟨body, by rw [List.drop_zero, hbody]; rfl⟩] at hstart
        cases hstart
      · rcases Numeral.readMagnitude radix (Text.trim text) with (_ | _) | _ <;> rfl

/-! ## Field lines -/

/-- The pieces of repeated cutting, one more than there are cuts. -/
def cuts (sep : Char) : Nat → Text → List Text
  | 0, text => [text]
  | count + 1, text => (Text.cutAt sep text).1 :: cuts sep count (Text.cutAt sep text).2

theorem cuts_nil (sep : Char) (count : Nat) :
    cuts sep count [] = List.replicate (count + 1) [] := by
  induction count with
  | zero => rfl
  | succ count ih => exact congrArg (List.cons []) ih

/-- Cutting stops early when there is no separator left; the segments that
are missing then are added as empty ones. -/
theorem splitAtMost_padded (sep : Char) (count : Nat) (text : Text) :
    splitAtMost sep count text ++
      List.replicate (count + 1 - (splitAtMost sep count text).length) [] =
    cuts sep count text := by
  induction count generalizing text with
  | zero => rfl
  | succ count ih =>
    rw [splitAtMost, cuts, Text.cutAt]
    split
    · rw [List.length_cons, Nat.add_sub_add_right, List.cons_append, ih]
    · next hsep =>
      have hall : ∀ c ∈ text, decide (c ≠ sep) = true := by
        intro c hc
        exact decide_eq_true (fun heq => hsep (heq ▸ hc))
      rw [List.takeWhile_eq_self_iff.mpr hall, List.dropWhile_eq_nil_iff.mpr hall, List.drop_nil,
        cuts_nil]
      rfl

theorem isAsciiNumber_iff (text : Text) :
    isAsciiNumber text = true ↔ text ≠ [] ∧ text.all Text.isAsciiDigit = true := by
  simp only [isAsciiNumber, Bool.and_eq_true, decide_eq_true_eq, List.all_eq_true,
    Text.isAsciiDigit_eq]
  constructor
  · rintro ⟨⟨hne, hascii⟩, hdigit⟩
    exact ⟨hne, fun c hc => ⟨hascii c hc, hdigit c hc⟩⟩
  · rintro ⟨hne, hall⟩
    exact ⟨⟨hne, fun c hc => (hall c hc).1⟩, fun c hc => (hall c hc).2⟩

/-- What the total readers refuse without an error is nothing to a run. -/
def optional {α : Type} : Except (Failure Unit) α → Except Fault (Option α)
  | .ok answer => .ok (some answer)
  | .error (.refused _) => .ok none
  | .error .tooLong => .error .tooLong

/-- What is asked of a segment is what the conversion needs, apart from its length. -/
theorem count_cases (text : Text) :
    (isAsciiNumber text = false ∧ Field.readCount text = .error (.refused ())) ∨
    (isAsciiNumber text = true ∧ toNumber .dec text = settled (.error .tooLong) ∧
      Field.readCount text = .error .tooLong) ∨
    (isAsciiNumber text = true ∧ ∃ n, toNumber .dec text = settled (.ok n) ∧
      Field.readCount text = .ok n) := by
  rw [Field.readCount]
  by_cases hdigits : text ≠ [] ∧ text.all Text.isAsciiDigit = true
  · have hall : text.all (Numeral.isDigitOf .dec) = true := by
      rw [funext Numeral.isDigitOf_dec]
      exact hdigits.2
    rw [if_pos hdigits, toNumber_eq hdigits.1 hall]
    have hnumber := (isAsciiNumber_iff text).mpr hdigits
    split
    · exact Or.inr (Or.inl ⟨hnumber, rfl, rfl⟩)
    · exact Or.inr (Or.inr ⟨hnumber, _, rfl, rfl⟩)
  · rw [if_neg hdigits]
    exact Or.inl ⟨Bool.eq_false_iff.mpr (mt (isAsciiNumber_iff text).mp hdigits), rfl⟩

theorem parseExtent_eq (width : Text) :
    parseExtent width = settled (optional (Field.readExtent width)) := by
  match width with
  | [] => rfl
  | c :: rest =>
    unfold parseExtent Field.readExtent
    rw [if_neg (List.cons_ne_nil c rest), charAt_of_drop (List.drop_zero), settled_ok_bind]
    cases hfirst : Text.isAsciiDigit c with
    | true =>
      simp only [hfirst, not_true_eq_false, if_false, if_true]
      rcases count_cases (c :: rest) with ⟨hnumber, hcount⟩ | ⟨hnumber, hlong, hcount⟩ |
        ⟨hnumber, n, hn, hcount⟩
      · simp only [hnumber, Bool.false_eq_true, not_false_eq_true, if_true, hcount]
        rfl
      · simp only [hnumber, not_true_eq_false, if_false, hlong, settled_error_bind, hcount]
        rfl
      · simp only [hnumber, not_true_eq_false, if_false, hn, settled_ok_bind, hcount]
        cases n <;> rfl
    | false =>
      simp only [hfirst, Bool.false_eq_true, not_false_eq_true, if_true, if_false, List.drop_one,
        List.tail_cons]
      rcases count_cases (Text.trim rest) with ⟨hnumber, hcount⟩ | ⟨hnumber, hlong, hcount⟩ |
        ⟨hnumber, n, hn, hcount⟩
      · simp only [hnumber, Bool.false_eq_true, not_false_eq_true, if_true, hcount]
        rfl
      · simp only [hnumber, not_true_eq_false, if_false, hlong, settled_error_bind, hcount]
        rfl
      · simp only [hnumber, not_true_eq_false, if_false, hn, settled_ok_bind, hcount]
        rfl

theorem parseField_eq (line : Text) :
    parseField line = settled (optional (Field.ofContent line)) := by
  have hsegments : ((splitAtMost ':' 4 (Text.trim line)).map Text.trim) ++
      List.replicate (5 - ((splitAtMost ':' 4 (Text.trim line)).map Text.trim).length) [] =
      (cuts ':' 4 (Text.trim line)).map Text.trim := by
    rw [← splitAtMost_padded, List.map_append, List.length_map, List.map_replicate]
    rfl
  unfold parseField Field.ofContent
  dsimp only
  rw [hsegments]
  show (do
    let extent? ← parseExtent (Field.Segments.ofLine line).width
    _) = _
  rw [parseExtent_eq]
  rcases Field.readExtent (Field.Segments.ofLine line).width with (_ | _) | _ <;> rfl

end Checked

end BitLayout
