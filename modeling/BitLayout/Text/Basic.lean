/-!
# Text as a list of characters

Descriptions, numerals and everything printed from them are lists of characters, so that a
position is a count of characters and every reader is a recursion on the list. This module holds
the few cuts and replacements that the rest of the library needs: the part before a separator,
the pieces between separators, and the replacement of one pair of neighbours.

It also says which characters are white space and which are digits. Trimming removes white space
from the ends of a text only, and nothing it leaves at an end is white space. Of the digits in
Unicode 14.0 the decimal ones stand for their value in a number, in whatever script; the others,
such as superscripts and circled digits, only count as digits.

Some readers of numbers are liberal: white space may stand around the number, its digits may come
from any script, and single underscores may separate digits. `Text.plainNumber?` removes all of
this, so that what is left can be read by the ASCII grammar of the number.
-/

namespace BitLayout

/-- Text is a list of characters; positions in it count characters. -/
abbrev Text := List Char

/-- A set of code points, as closed ranges. -/
abbrev CodeRanges := List (Nat × Nat)

def CodeRanges.contains (ranges : CodeRanges) (c : Char) : Bool :=
  ranges.any fun r => r.1 ≤ c.toNat && c.toNat ≤ r.2

namespace Text

/-! ## Cuts and replacements -/

/-- The part before the first separator and the part after it; without a separator the second
part is empty, so a missing part and an empty one are the same. -/
def cutAt (sep : Char) (t : Text) : Text × Text :=
  (t.takeWhile (· ≠ sep), (t.dropWhile (· ≠ sep)).drop 1)

/-- The pieces between separators. There is one more piece than there are separators. -/
def splitOn (sep : Char) : Text → List Text
  | [] => [[]]
  | c :: t =>
    if c = sep then [] :: splitOn sep t
    else match splitOn sep t with
      | [] => [[c]]
      | piece :: pieces => (c :: piece) :: pieces

/-- The pieces with a separator between neighbours. -/
def joinWith (sep : Text) : List Text → Text
  | [] => []
  | [piece] => piece
  | piece :: pieces => piece ++ sep ++ joinWith sep pieces

-- The tag has the equations made here, once for all proofs about joined lines.
/-- Replaces each occurrence of `a` directly before `b`, from the left and without overlap. -/
@[grind =] def replacePair (a b : Char) (new : Text) : Text → Text
  | x :: y :: t =>
    if x = a ∧ y = b then new ++ replacePair a b new t
    else x :: replacePair a b new (y :: t)
  | t => t

def replaceChar (a : Char) (new : Text) (t : Text) : Text :=
  t.flatMap fun c => if c = a then new else [c]

/-- The text with blanks in front, as many as are missing to `width` characters. -/
def alignRight (width : Nat) (t : Text) : Text :=
  t.leftpad width ' '

/-- Where `delim` occurs first, if it does. The empty delimiter occurs at the front. -/
def findFirst? (delim : Text) : Text → Option Nat
  | [] => if delim.isEmpty then some 0 else none
  | c :: t =>
    if delim.isPrefixOf (c :: t) then some 0
    else (findFirst? delim t).map (· + 1)

theorem splitOn_ne_nil (sep : Char) (t : Text) : splitOn sep t ≠ [] := by
  cases t with
  | nil => simp [splitOn]
  | cons c t =>
    rw [splitOn]
    split
    · simp
    · split <;> simp

/-- Cutting loses nothing but the separators. -/
theorem joinWith_splitOn (sep : Char) (t : Text) : joinWith [sep] (splitOn sep t) = t := by
  induction t with
  | nil => rfl
  | cons c t ih =>
    obtain ⟨p, ps, hs⟩ := List.exists_cons_of_ne_nil (splitOn_ne_nil sep t)
    rw [hs] at ih
    rw [splitOn]
    split
    · next h => subst h; simp [hs, joinWith, ih]
    · rw [hs]
      cases ps <;> simp_all [joinWith]

/-! ## White space -/

/-- The white space characters of Unicode, together with the four separators U+001C to U+001F. -/
def spaceRanges : CodeRanges :=
  [(0x09, 0x0d), (0x1c, 0x20), (0x85, 0x85), (0xa0, 0xa0), (0x1680, 0x1680), (0x2000, 0x200a),
   (0x2028, 0x2029), (0x202f, 0x202f), (0x205f, 0x205f), (0x3000, 0x3000)]

def isSpace (c : Char) : Bool :=
  spaceRanges.contains c

def trimLeft (t : Text) : Text :=
  t.dropWhile isSpace

def trimRight (t : Text) : Text :=
  (t.reverse.dropWhile isSpace).reverse

def trim (t : Text) : Text :=
  trimLeft (trimRight t)

/-- What is trimmed off the end is white space, and nothing else is lost. -/
theorem trimRight_append (t : Text) :
    ∃ tail : Text, t = trimRight t ++ tail ∧ ∀ c ∈ tail, isSpace c = true := by
  refine ⟨(t.reverse.takeWhile isSpace).reverse, ?_, ?_⟩
  · rw [trimRight, ← List.reverse_append, List.takeWhile_append_dropWhile, List.reverse_reverse]
  · intro c hc
    exact List.all_eq_true.1 List.all_takeWhile c (List.mem_reverse.1 hc)

/-! ## Digits -/

/-- The code points of the digit zero in every script with decimal digits; the digits one to nine
follow each of them. -/
def decimalZeros : List Nat :=
  [0x30, 0x660, 0x6f0, 0x7c0, 0x966, 0x9e6, 0xa66, 0xae6, 0xb66, 0xbe6, 0xc66, 0xce6, 0xd66,
   0xde6, 0xe50, 0xed0, 0xf20, 0x1040, 0x1090, 0x17e0, 0x1810, 0x1946, 0x19d0, 0x1a80, 0x1a90,
   0x1b50, 0x1bb0, 0x1c40, 0x1c50, 0xa620, 0xa8d0, 0xa900, 0xa9d0, 0xa9f0, 0xaa50, 0xabf0, 0xff10,
   0x104a0, 0x10d30, 0x11066, 0x110f0, 0x11136, 0x111d0, 0x112f0, 0x11450, 0x114d0, 0x11650,
   0x116c0, 0x11730, 0x118e0, 0x11950, 0x11c50, 0x11d50, 0x11da0, 0x16a60, 0x16ac0, 0x16b50,
   0x1d7ce, 0x1d7d8, 0x1d7e2, 0x1d7ec, 0x1d7f6, 0x1e140, 0x1e2f0, 0x1e950, 0x1fbf0]

/-- The digits without a decimal value: superscripts, subscripts, circled and bracketed digits,
and the digits of scripts that do not count in tens. -/
def otherDigitRanges : CodeRanges :=
  [(0xb2, 0xb3), (0xb9, 0xb9), (0x1369, 0x1371), (0x19da, 0x19da), (0x2070, 0x2070),
   (0x2074, 0x2079), (0x2080, 0x2089), (0x2460, 0x2468), (0x2474, 0x247c), (0x2488, 0x2490),
   (0x24ea, 0x24ea), (0x24f5, 0x24fd), (0x24ff, 0x24ff), (0x2776, 0x277e), (0x2780, 0x2788),
   (0x278a, 0x2792), (0x10a40, 0x10a43), (0x10e60, 0x10e68), (0x11052, 0x1105a),
   (0x1f100, 0x1f10a)]

/-- The value of a decimal digit of any script. -/
def decimal? (c : Char) : Option Nat :=
  (decimalZeros.find? fun z => z ≤ c.toNat && c.toNat < z + 10).map (c.toNat - ·)

def isDigit (c : Char) : Bool :=
  (decimal? c).isSome || otherDigitRanges.contains c

def isAsciiDigit (c : Char) : Bool :=
  '0' ≤ c && c ≤ '9'

/-! ## Numbers as people type them -/

/-- White space around a typed number. The four separators U+001C to U+001F do not count. -/
def isNumberSpace (c : Char) : Bool :=
  isSpace c && !(0x1c ≤ c.toNat && c.toNat ≤ 0x1f)

def trimNumber (t : Text) : Text :=
  (((t.dropWhile isNumberSpace).reverse).dropWhile isNumberSpace).reverse

/-- The ASCII digit of the same value for a decimal digit of any script; any other character
itself. -/
def asciiDigit (c : Char) : Char :=
  match decimal? c with
  | some d => Nat.digitChar d
  | none => c

/-- The text without its underscores, if each of them stands between two ASCII digits. -/
def dropSeparators? (afterDigit : Bool) : Text → Option Text
  | [] => some []
  | c :: t =>
    if c = '_' then
      if afterDigit && t.head?.any isAsciiDigit then dropSeparators? false t else none
    else (dropSeparators? (isAsciiDigit c) t).map (c :: ·)

/-- A typed number in ASCII, without white space around and separators inside. -/
def plainNumber? (t : Text) : Option Text :=
  dropSeparators? false ((trimNumber t).map asciiDigit)

end Text

end BitLayout
