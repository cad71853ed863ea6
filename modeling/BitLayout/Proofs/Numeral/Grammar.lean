import Mathlib.Data.Nat.Digits.Defs
import BitLayout.Proofs.Numeral.RoundTrip

/-!
# The grammar of numerals

Which texts are numerals, and of which numbers (`Signed`). The rules overlap:
`0b1` begins with a mark, with a zero, and, to a reader of hexadecimal ones,
with three digits. The grammar keeps them apart by what a numeral without a
mark must not look like (`Unmarked`), where the reader tries them in an order
and never goes back. A zero in front of a digit that is not octal is the case
in which this matters: `09` is no numeral in any base, and `0F` is one in
base sixteen.

The reader takes a zero for a mark when any digit at all stands behind it,
also one of another script, which no base counts. So the two differ in what
they call a mark, but not in what they read.

A numeral that is written as the grammar says is read, unless it has too many
decimal digits (`Overlong`). That is a third outcome, which only decimal
numerals have.

The number is told without the reader's own arithmetic: a digit counts as
many units as `Nat.ofDigits` says for its place.
-/

namespace BitLayout

namespace Numeral

/-! ## Digits -/

/-- A digit of a radix, and its value; a letter may stand in either case. -/
def DigitOf (radix : Radix) (c : Char) (d : Nat) : Prop :=
  d < radix.base ∧ (c = Nat.digitChar d ∨ c = (Nat.digitChar d).toUpper)

/-- At least one digit, and the number that the digits stand for in their places. -/
def Positional (radix : Radix) (digits : Text) (n : Nat) : Prop :=
  digits ≠ [] ∧ ∃ values, List.Forall₂ (DigitOf radix) digits values ∧
    n = Nat.ofDigits radix.base values.reverse

theorem digitValue?_eq_some_iff {c : Char} {d : Nat} :
    digitValue? c = some d ↔ d < 16 ∧ (c = Nat.digitChar d ∨ c = (Nat.digitChar d).toUpper) := by
  constructor
  · intro h
    by_cases hc : c.toNat < 128
    · have hall : (digitValue? c).all fun d =>
          d < 16 ∧ (c = Nat.digitChar d ∨ c = (Nat.digitChar d).toUpper) :=
        Text.ascii_cases (P := fun c => (digitValue? c).all fun d =>
          d < 16 ∧ (c = Nat.digitChar d ∨ c = (Nat.digitChar d).toUpper)) (by decide) hc
      rw [h] at hall
      exact of_decide_eq_true hall
    · rw [digitValue?_of_not_ascii hc] at h
      cases h
  · have hcapital : ∀ d < 16, digitValue? (Nat.digitChar d).toUpper = some d := by decide
    rintro ⟨hd, rfl | rfl⟩
    · exact digitValue?_digitChar hd
    · exact hcapital d hd

theorem digitOf_iff {radix : Radix} {c : Char} {d : Nat} :
    DigitOf radix c d ↔ digitValue? c = some d ∧ d < radix.base := by
  have hle := radix.base_le
  rw [DigitOf, digitValue?_eq_some_iff]
  constructor
  · rintro ⟨hd, hc⟩
    exact ⟨⟨by omega, hc⟩, hd⟩
  · rintro ⟨⟨-, hc⟩, hd⟩
    exact ⟨hd, hc⟩

theorem isDigitOf_iff {radix : Radix} {c : Char} :
    isDigitOf radix c = true ↔ ∃ d, DigitOf radix c d := by
  simp [isDigitOf, digitOf_iff, Option.any_eq_true]

theorem all_isDigitOf_iff {radix : Radix} {digits : Text} :
    digits.all (isDigitOf radix) = true ↔ ∃ values, List.Forall₂ (DigitOf radix) digits values := by
  induction digits with
  | nil => exact ⟨fun _ => ⟨[], .nil⟩, fun _ => rfl⟩
  | cons c digits ih =>
    rw [List.all_cons, Bool.and_eq_true, isDigitOf_iff, ih]
    constructor
    · rintro ⟨⟨d, hd⟩, values, hvalues⟩
      exact ⟨d :: values, .cons hd hvalues⟩
    · rintro ⟨_, hvalues⟩
      cases hvalues with
      | cons hd hvalues => exact ⟨⟨_, hd⟩, _, hvalues⟩

/-- Reading digits from the front gives each the weight of its place. -/
theorem ofDigits_of_values {radix : Radix} {digits : Text} {values : List Nat}
    (h : List.Forall₂ (DigitOf radix) digits values) :
    ofDigits radix digits = Nat.ofDigits radix.base values.reverse := by
  have hvalues : digits.map (fun c => (digitValue? c).getD 0) = values := by
    induction h with
    | nil => rfl
    | cons hdigit _ ih => simp [(digitOf_iff.mp hdigit).1, ih]
  rw [Nat.ofDigits_eq_foldr, List.foldr_reverse, ← hvalues, List.foldl_map, ofDigits]
  simp only [Nat.cast_id, Nat.add_comm]

theorem ofDigits?_eq_some_iff {radix : Radix} {digits : Text} {n : Nat} :
    ofDigits? radix digits = some n ↔ Positional radix digits n := by
  rw [ofDigits?, Positional]
  constructor
  · intro h
    split at h
    · next hdigits =>
      obtain ⟨values, hvalues⟩ := all_isDigitOf_iff.mp hdigits.2
      cases h
      exact ⟨hdigits.1, values, hvalues, ofDigits_of_values hvalues⟩
    · cases h
  · rintro ⟨hne, values, hvalues, rfl⟩
    rw [if_pos ⟨hne, all_isDigitOf_iff.mpr ⟨values, hvalues⟩⟩, ofDigits_of_values hvalues]

theorem Positional.exists_digitOf {radix : Radix} {digits : Text} {n : Nat}
    (h : Positional radix digits n) {c : Char} (hc : c ∈ digits) : ∃ d, DigitOf radix c d := by
  obtain ⟨-, values, hvalues, -⟩ := h
  exact isDigitOf_iff.mp (List.all_eq_true.mp (all_isDigitOf_iff.mpr ⟨values, hvalues⟩) c hc)

/-! ## Numerals without a sign -/

/-- A zero in front is not followed by a letter of a mark, nor by a decimal digit. -/
def Unmarked (body : Text) : Prop :=
  ∀ c rest, body = '0' :: c :: rest →
    (∀ radix, (c, radix) ∉ marks) ∧ Text.isAsciiDigit c = false

/-- A numeral without a sign, to a reader who takes one without a mark to be in the radix
`otherwise`. -/
inductive Unsigned (otherwise : Radix) : Text → Nat → Prop
  | marked {c : Char} {radix : Radix} {digits : Text} {n : Nat} (mark : (c, radix) ∈ marks)
      (value : Positional radix digits n) : Unsigned otherwise ('0' :: c :: digits) n
  | octal {digits : Text} {n : Nat} (value : Positional .oct digits n) :
      Unsigned otherwise ('0' :: digits) n
  | plain {digits : Text} {n : Nat} (value : Positional otherwise digits n)
      (unmarked : Unmarked digits) : Unsigned otherwise digits n

theorem DigitOf.of_oct {c : Char} {d : Nat} (h : DigitOf .oct c d) :
    Text.isDigit c = true ∧ ∀ radix, (c, radix) ∉ marks := by
  have hupper : ∀ d < 8, (Nat.digitChar d).toUpper = Nat.digitChar d := by decide
  obtain ⟨hd, hc⟩ := h
  rw [hupper d hd, or_self] at hc
  exact hc ▸ digitChar_oct hd

theorem DigitOf.isAscii {radix : Radix} {c : Char} {d : Nat} (h : DigitOf radix c d) :
    c.toNat < 128 := by
  by_contra hc
  have hvalue := (digitOf_iff.mp h).1
  rw [digitValue?_of_not_ascii hc] at hvalue
  cases hvalue

/-- What the reader makes of a numeral is one of the three forms. -/
theorem unsigned_of_positional {otherwise : Radix} {body : Text} {n : Nat}
    (h : Positional (announced otherwise body).1 (announced otherwise body).2 n) :
    Unsigned otherwise body n := by
  match body with
  | [] => exact .plain h (fun c rest h => by cases h)
  | [c] =>
    rw [announced_single] at h
    exact .plain h (fun d rest h => by cases h)
  | c :: d :: rest =>
    by_cases hc : c = '0'
    · subst hc
      by_cases hmark : ∃ radix, (d, radix) ∈ marks
      · obtain ⟨radix, hmark⟩ := hmark
        rw [announced_marked hmark] at h
        exact .marked hmark h
      · have hother : ∀ radix, (d, radix) ∉ marks := fun radix h => hmark ⟨radix, h⟩
        rw [announced_other hother] at h
        split at h
        · exact .octal h
        · next hdigit =>
          refine .plain h fun e rest he => ?_
          obtain ⟨rfl, rfl⟩ := List.cons.inj (List.cons.inj he).2
          rw [Text.isAsciiDigit_eq, Bool.eq_false_iff.mpr hdigit, Bool.and_false]
          exact ⟨hother, rfl⟩
    · rw [announced_of_ne_zero hc] at h
      exact .plain h fun e rest he => absurd (List.cons.inj he).1 hc

/-- A numeral without a mark is taken for one in the radix that was asked for. -/
theorem announced_of_unmarked {otherwise : Radix} {body : Text} {n : Nat}
    (hvalue : Positional otherwise body n) (hunmarked : Unmarked body) :
    announced otherwise body = (otherwise, body) := by
  match body, hvalue with
  | [], hvalue => exact absurd rfl hvalue.1
  | [c], hvalue => exact announced_single otherwise c
  | c :: d :: rest, hvalue =>
    by_cases hc : c = '0'
    · subst hc
      obtain ⟨hother, hdecimal⟩ := hunmarked d rest rfl
      obtain ⟨v, hv⟩ := hvalue.exists_digitOf (List.mem_cons_of_mem _ List.mem_cons_self)
      -- A digit of another script would be taken for one here, but no base counts it.
      rw [Text.isAsciiDigit_eq, decide_eq_true hv.isAscii, Bool.true_and] at hdecimal
      rw [announced_other hother, hdecimal]
      rfl
    · exact announced_of_ne_zero hc

/-- A zero in front of octal digits is taken for a mark. -/
theorem announced_of_octal {digits : Text} {n : Nat} (hvalue : Positional .oct digits n)
    (otherwise : Radix) : announced otherwise ('0' :: digits) = (.oct, digits) := by
  obtain ⟨c, rest, rfl⟩ := List.exists_cons_of_ne_nil hvalue.1
  obtain ⟨d, hd⟩ := hvalue.exists_digitOf List.mem_cons_self
  obtain ⟨hdigit, hother⟩ := hd.of_oct
  rw [announced_other hother, if_pos hdigit]

/-- Each of the three forms is taken for what it is. -/
theorem Unsigned.positional {otherwise : Radix} {body : Text} {n : Nat}
    (h : Unsigned otherwise body n) :
    Positional (announced otherwise body).1 (announced otherwise body).2 n := by
  cases h with
  | marked hmark hvalue =>
    rw [announced_marked hmark]
    exact hvalue
  | octal hvalue =>
    rw [announced_of_octal hvalue]
    exact hvalue
  | plain hvalue hunmarked =>
    rw [announced_of_unmarked hvalue hunmarked]
    exact hvalue

/-! ## Too many digits -/

/-- More decimal digits than are converted. The first one is no zero, which would be a mark. -/
structure Overlong (body : Text) : Prop where
  decimal : body.all Text.isAsciiDigit = true
  first : body.head? ≠ some '0'
  many : mostDecimals < body.length

theorem Overlong.announced {body : Text} (h : Overlong body) :
    announced .dec body = (.dec, body) := by
  match body, h with
  | [], h => exact absurd h.many (by decide)
  | c :: rest, h => exact announced_of_ne_zero fun hc => h.first (congrArg some hc)

theorem overlong_ones : Overlong (List.replicate 4301 '1') where
  decimal := List.all_eq_true.mpr fun c hc => by
    rw [List.eq_of_mem_replicate hc]
    decide
  first := by
    rw [List.head?_replicate]
    decide
  many := by
    rw [List.length_replicate]
    decide

/-- It is written like a numeral all the same. -/
theorem Overlong.exists_unsigned {body : Text} (h : Overlong body) :
    ∃ n, Unsigned .dec body n := by
  have hne : body ≠ [] := by
    rintro rfl
    exact absurd h.many (by decide)
  have hall : body.all (isDigitOf .dec) = true :=
    List.all_eq_true.mpr fun c hc => (isDigitOf_dec c).trans (List.all_eq_true.mp h.decimal c hc)
  obtain ⟨values, hvalues⟩ := all_isDigitOf_iff.mp hall
  refine ⟨_, .plain ⟨hne, values, hvalues, rfl⟩ fun c rest hbody => ?_⟩
  exact absurd (congrArg List.head? hbody) h.first

/-- A numeral has too many digits when the reader takes it for a decimal one that has. -/
theorem Unsigned.tooMany_iff {otherwise : Radix} {body : Text} {n : Nat}
    (h : Unsigned otherwise body n) :
    TooMany (announced otherwise body).1 (announced otherwise body).2 ↔
      otherwise = .dec ∧ Overlong body := by
  constructor
  · rintro ⟨hradix, hmany⟩
    cases h with
    | marked hmark _ =>
      rw [announced_marked hmark] at hradix
      have hall : ∀ mark ∈ marks, mark.2 ≠ .dec := by decide
      exact absurd hradix (hall _ hmark)
    | octal hvalue =>
      rw [announced_of_octal hvalue] at hradix
      cases hradix
    | plain hvalue hunmarked =>
      rw [announced_of_unmarked hvalue hunmarked] at hradix hmany
      obtain rfl : otherwise = .dec := hradix
      refine ⟨rfl, List.all_eq_true.mpr fun c hc => ?_, fun hfirst => ?_, hmany⟩
      · rw [← isDigitOf_dec, isDigitOf_iff]
        exact hvalue.exists_digitOf hc
      · obtain ⟨rest, rfl⟩ := List.head?_eq_some_iff.mp hfirst
        match rest, hmany with
        | [], hmany => exact absurd hmany (by decide)
        | c :: rest, _ =>
          obtain ⟨d, hd⟩ := hvalue.exists_digitOf (List.mem_cons_of_mem _ List.mem_cons_self)
          have hdigit := isDigitOf_iff.mpr ⟨d, hd⟩
          rw [isDigitOf_dec, (hunmarked c rest rfl).2] at hdigit
          cases hdigit
  · rintro ⟨rfl, hlong⟩
    rw [hlong.announced]
    exact ⟨rfl, hlong.many⟩

/-- What is written like a numeral is read, if its digits can be converted. -/
theorem readMagnitude_of_unsigned {otherwise : Radix} {body : Text} {n : Nat}
    (h : Unsigned otherwise body n) (hshort : ¬ (otherwise = .dec ∧ Overlong body)) :
    readMagnitude otherwise body = .ok n := by
  simp only [readMagnitude, ofDigits?_eq_some_iff.mpr h.positional]
  exact if_neg (mt h.tooMany_iff.mp hshort)

theorem readMagnitude_of_overlong {body : Text} (h : Overlong body) :
    readMagnitude .dec body = .error .tooLong := by
  obtain ⟨n, hn⟩ := h.exists_unsigned
  simp only [readMagnitude, ofDigits?_eq_some_iff.mpr hn.positional]
  exact if_pos (hn.tooMany_iff.mpr ⟨rfl, h⟩)

/-- What is not written like a numeral is refused. -/
theorem readMagnitude_of_not_unsigned {otherwise : Radix} {body : Text}
    (h : ¬ ∃ n, Unsigned otherwise body n) :
    ∃ used, readMagnitude otherwise body = .error (.refused used) := by
  have hnone : ofDigits? (announced otherwise body).1 (announced otherwise body).2 = none :=
    Option.eq_none_iff_forall_ne_some.mpr fun n hn =>
      h ⟨n, unsigned_of_positional (ofDigits?_eq_some_iff.mp hn)⟩
  refine ⟨(announced otherwise body).1, ?_⟩
  simp only [readMagnitude, hnone]

/-- **The reader of numerals without a sign follows the grammar**, as far as digits can be
converted. -/
theorem readMagnitude_iff {otherwise : Radix} {body : Text} {n : Nat} :
    readMagnitude otherwise body = .ok n ↔
      Unsigned otherwise body n ∧ ¬ (otherwise = .dec ∧ Overlong body) := by
  refine ⟨fun h => ?_, fun h => readMagnitude_of_unsigned h.1 h.2⟩
  have hshort : ¬ (otherwise = .dec ∧ Overlong body) := by
    rintro ⟨rfl, hlong⟩
    cases h.symm.trans (readMagnitude_of_overlong hlong)
  by_cases hunsigned : ∃ m, Unsigned otherwise body m
  · obtain ⟨m, hm⟩ := hunsigned
    obtain rfl := Except.ok.inj (h.symm.trans (readMagnitude_of_unsigned hm hshort))
    exact ⟨hm, hshort⟩
  · obtain ⟨used, hrefused⟩ := readMagnitude_of_not_unsigned hunsigned
    cases h.symm.trans hrefused

theorem readMagnitude_tooLong_iff {otherwise : Radix} {body : Text} :
    readMagnitude otherwise body = .error .tooLong ↔ otherwise = .dec ∧ Overlong body := by
  constructor
  · intro h
    by_contra hshort
    by_cases hunsigned : ∃ n, Unsigned otherwise body n
    · obtain ⟨n, hn⟩ := hunsigned
      cases h.symm.trans (readMagnitude_of_unsigned hn hshort)
    · obtain ⟨used, hrefused⟩ := readMagnitude_of_not_unsigned hunsigned
      cases h.symm.trans hrefused
  · rintro ⟨rfl, hlong⟩
    exact readMagnitude_of_overlong hlong

/-! ## Signs and bases -/

/-- A numeral without a sign, or one behind a minus sign. -/
inductive Signed (otherwise : Radix) : Text → Int → Prop
  | positive {body : Text} {n : Nat} (value : Unsigned otherwise body n) :
      Signed otherwise body n
  | negative {body : Text} {n : Nat} (value : Unsigned otherwise body n) :
      Signed otherwise ('-' :: body) (-n)

/-- What is left without the minus sign, if there is one in front. -/
def behindSign : Text → Text
  | '-' :: body => body
  | body => body

theorem isDigitOf_minus (radix : Radix) : isDigitOf radix '-' = false := by
  cases radix <;> rfl

theorem Unsigned.ne_minus {otherwise : Radix} {body : Text} {n : Nat}
    (h : Unsigned otherwise ('-' :: body) n) : False := by
  cases h with
  | plain hvalue _ =>
    have hdigit := isDigitOf_iff.mpr (hvalue.exists_digitOf List.mem_cons_self)
    rw [isDigitOf_minus] at hdigit
    cases hdigit

/-- A numeral is one without a sign behind its sign, and the reader asks for nothing else. -/
theorem read_sign (otherwise : Radix) (text : Text) : ∃ sign : Nat → Int,
    (∀ value, Signed otherwise (Text.trim text) value ↔
      ∃ n, Unsigned otherwise (behindSign (Text.trim text)) n ∧ sign n = value) ∧
    read otherwise text =
      ((readMagnitude otherwise (behindSign (Text.trim text))).map sign).mapError
        (Failure.map (.badDigits · (Text.trim text))) := by
  generalize htrim : Text.trim text = trimmed
  by_cases hminus : ∃ body, trimmed = '-' :: body
  · obtain ⟨body, rfl⟩ := hminus
    refine ⟨fun n => -n, fun value => ⟨fun h => ?_, ?_⟩, ?_⟩
    · cases h with
      | positive hn => exact hn.ne_minus.elim
      | negative hn => exact ⟨_, hn, rfl⟩
    · rintro ⟨n, hn, rfl⟩
      exact .negative hn
    · simp only [read, htrim]
      rfl
  · have hbehind : behindSign trimmed = trimmed := by
      unfold behindSign
      split
      · next body => exact absurd ⟨body, rfl⟩ hminus
      · rfl
    rw [hbehind]
    refine ⟨fun n => n, fun value => ⟨fun h => ?_, ?_⟩, ?_⟩
    · cases h with
      | positive hn => exact ⟨_, hn, rfl⟩
      | negative hn => exact absurd ⟨_, rfl⟩ hminus
    · rintro ⟨n, hn, rfl⟩
      exact .positive hn
    · simp only [read, htrim]
      split
      · next body => exact absurd ⟨body, rfl⟩ hminus
      · rfl

/-- A text is read when what is left of it without the white space around it is a numeral that is
not too long. -/
theorem read_iff {otherwise : Radix} {text : Text} {value : Int} :
    read otherwise text = .ok value ↔ Signed otherwise (Text.trim text) value ∧
      ¬ (otherwise = .dec ∧ Overlong (behindSign (Text.trim text))) := by
  obtain ⟨sign, hsigned, hread⟩ := read_sign otherwise text
  rw [hsigned, hread, mapError_eq_ok_iff, map_eq_ok_iff]
  simp only [readMagnitude_iff]
  exact ⟨fun ⟨n, ⟨hn, hshort⟩, hvalue⟩ => ⟨⟨n, hn, hvalue⟩, hshort⟩,
    fun ⟨⟨n, hn, hvalue⟩, hshort⟩ => ⟨n, ⟨hn, hshort⟩, hvalue⟩⟩

theorem read_tooLong_iff {otherwise : Radix} {text : Text} :
    read otherwise text = .error .tooLong ↔
      otherwise = .dec ∧ Overlong (behindSign (Text.trim text)) := by
  obtain ⟨sign, -, hread⟩ := read_sign otherwise text
  rw [hread, ← readMagnitude_tooLong_iff]
  cases readMagnitude otherwise (behindSign (Text.trim text)) with
  | ok n => exact iff_of_false nofun nofun
  | error failure =>
    cases failure with
    | refused used => exact iff_of_false nofun nofun
    | tooLong => exact iff_of_true rfl rfl

/-- A text that is no numeral is refused, and then with what is left of it. -/
theorem exists_badDigits_iff {otherwise : Radix} {text : Text} :
    (∃ used, read otherwise text = .error (.refused (.badDigits used (Text.trim text)))) ↔
      ¬ ∃ value, Signed otherwise (Text.trim text) value := by
  constructor
  · rintro ⟨used, hrefused⟩ ⟨value, hvalue⟩
    by_cases hlong : otherwise = .dec ∧ Overlong (behindSign (Text.trim text))
    · cases (read_tooLong_iff.mpr hlong).symm.trans hrefused
    · cases (read_iff.mpr ⟨hvalue, hlong⟩).symm.trans hrefused
  · intro hnone
    cases hread : read otherwise text with
    | ok value => exact absurd ⟨value, (read_iff.mp hread).1⟩ hnone
    | error failure =>
      cases failure with
      | refused e =>
        obtain ⟨used, rfl⟩ := badDigits_of_read hread
        exact ⟨used, rfl⟩
      | tooLong =>
        obtain ⟨rfl, hlong⟩ := read_tooLong_iff.mp hread
        obtain ⟨sign, hsigned, -⟩ := read_sign .dec text
        obtain ⟨n, hn⟩ := hlong.exists_unsigned
        exact absurd ⟨sign n, (hsigned _).mpr ⟨n, hn, rfl⟩⟩ hnone

/-- An error tells the base, if it can be written. -/
theorem parse_of_not_base {base : Int} (h : ∀ radix : Radix, base ≠ radix.base) (text : Text) :
    parse text base = .error
      (if 10 ^ mostDecimals ≤ base.natAbs then .tooLong else .refused (.badRadix base)) := by
  have hnone : Radix.ofBase? base = none :=
    Option.eq_none_iff_forall_ne_some.mpr fun radix hradix =>
      h radix (Radix.ofBase?_eq_some_iff.mp hradix)
  rw [parse, Radix.ofBase, hnone]
  simp only [long_dec_iff]
  rfl

/-- **A text is a numeral when it is written like one.** A base is one of the four, whatever the
text. In a base that is, the text is a number exactly when the grammar makes it one, and the same
number; every other text is refused. In between are the numerals with too many decimal digits,
which are not read and not refused, and so are bases that are too long to be told. -/
theorem parse_grammar (text : Text) (base : Int) :
    (∀ value, parse text base = .ok value ↔ ∃ radix : Radix, base = radix.base ∧
      Signed radix (Text.trim text) value ∧
        ¬ (radix = .dec ∧ Overlong (behindSign (Text.trim text)))) ∧
    (parse text base = .error (.refused (.badRadix base)) ↔
      base ∉ [2, 8, 10, 16] ∧ base.natAbs < 10 ^ mostDecimals) ∧
    ((∃ used, parse text base = .error (.refused (.badDigits used (Text.trim text)))) ↔
      base ∈ [2, 8, 10, 16] ∧
        ¬ ∃ (radix : Radix) (value : Int), base = radix.base ∧
          Signed radix (Text.trim text) value) ∧
    (parse text base = .error .tooLong ↔
      base = 10 ∧ Overlong (behindSign (Text.trim text)) ∨
        base ∉ [2, 8, 10, 16] ∧ 10 ^ mostDecimals ≤ base.natAbs) := by
  by_cases hbase : ∃ radix : Radix, base = radix.base
  · obtain ⟨radix, rfl⟩ := hbase
    have hmem : (radix.base : Int) ∈ [2, 8, 10, 16] := Radix.mem_bases_iff.mpr ⟨radix, rfl⟩
    have hsame : ∀ other : Radix, (radix.base : Int) = other.base ↔ radix = other := by
      intro other
      rw [← Radix.ofBase?_eq_some_iff, Radix.ofBase?_eq_some_iff.mpr rfl, Option.some.injEq]
    have hten : (radix.base : Int) = 10 ↔ radix = .dec := hsame .dec
    simp only [parse_base, hsame, exists_and_left, exists_eq_left', read_iff, hmem, hten,
      not_true_eq_false, false_and, iff_false, true_and, or_false, read_tooLong_iff]
    refine ⟨fun _ => trivial, fun h => ?_, exists_badDigits_iff, trivial⟩
    obtain ⟨used, hused⟩ := badDigits_of_read h
    cases hused
  · have hmem : base ∉ [2, 8, 10, 16] := fun h => hbase (Radix.mem_bases_iff.mp h)
    have hnone : ∀ radix : Radix, base ≠ radix.base := fun radix h => hbase ⟨radix, h⟩
    have hten : base ≠ 10 := hnone .dec
    rw [parse_of_not_base hnone]
    by_cases hlong : 10 ^ mostDecimals ≤ base.natAbs
    · simp [hlong, hnone, hmem, hten]
    · simp [hlong, hnone, hmem, hten, Nat.lt_of_not_le hlong]

/-- With one digit too many a text is written like a numeral and not read. -/
theorem parse_grammar_tooLong :
    let text : Text := List.replicate 4301 '1'
    (∃ value, Signed .dec (Text.trim text) value) ∧ parse text 10 = .error .tooLong := by
  intro text
  have htrim : Text.trim text = text := Text.trim_of_visible fun c hc => by
    rw [List.eq_of_mem_replicate hc]
    decide
  have hbehind : behindSign text = text := rfl
  obtain ⟨n, hn⟩ := overlong_ones.exists_unsigned
  refine ⟨⟨n, htrim.symm ▸ .positive hn⟩, ?_⟩
  rw [show (10 : Int) = Radix.dec.base from rfl, parse_base, read_tooLong_iff, htrim, hbehind]
  exact ⟨rfl, overlong_ones⟩

-- A decimal digit behind a zero makes a numeral octal, whatever is asked for; a letter does not.
example : parse "09".toList 10 = .error (.refused (.badDigits .oct "09".toList)) ∧
    parse "-0F\n".toList 16 = .ok (-15) ∧ parse "0b1".toList 16 = .ok 1 := by
  decide +kernel

end Numeral

end BitLayout
