import BitLayout.Text.Basic
import Mathlib

/-!
# Characters and trimming

A property of ASCII characters, or of those of a fixed text, can be checked one
by one (`ascii_cases`, `mem_cases`).

What trimming the end of a text does in front of it: nothing, unless all
that is left is white space (`trimRight_cons`, `trimRight_append_of_ne`).
-/

namespace BitLayout

namespace Text

theorem ascii_cases {P : Char → Prop} (h : ∀ n < 128, P (Char.ofNat n)) {c : Char}
    (hc : c.toNat < 128) : P c := by
  have := h c.toNat hc
  rwa [Char.ofNat_toNat] at this

/-- A property of the characters of a fixed text can be checked one by one, too. -/
theorem mem_cases {P : Char → Prop} [DecidablePred P] {text : Text}
    (h : text.all (fun c => decide (P c)) = true) : ∀ c ∈ text, P c :=
  fun c hc => of_decide_eq_true (List.all_eq_true.mp h c hc)

theorem toLower_of_not_ascii {c : Char} (h : ¬ c.toNat < 128) : c.toLower = c := by
  rw [Char.toLower, dif_neg]
  rintro ⟨-, hle⟩
  exact h (Nat.lt_of_le_of_lt (show c.toNat ≤ 90 from hle) (by decide))

theorem trimRight_eq_nil_iff {text : Text} :
    trimRight text = [] ↔ ∀ c ∈ text, isSpace c = true := by
  rw [trimRight, List.reverse_eq_nil_iff, List.dropWhile_eq_nil_iff]
  simp only [List.mem_reverse]

theorem trim_eq_nil_iff {text : Text} : trim text = [] ↔ ∀ c ∈ text, isSpace c = true := by
  obtain ⟨tail, htail, hspace⟩ := trimRight_append text
  rw [trim, trimLeft, List.dropWhile_eq_nil_iff]
  constructor
  · intro h c hc
    rw [htail] at hc
    rcases List.mem_append.mp hc with hc | hc
    · exact h c hc
    · exact hspace c hc
  · intro h c hc
    exact h c (htail ▸ List.mem_append_left tail hc)

theorem trimRight_isPrefix (text : Text) : trimRight text <+: text := by
  obtain ⟨tail, htail, -⟩ := trimRight_append text
  exact ⟨tail, htail.symm⟩

theorem isInfix_trim (text : Text) : trim text <:+: text :=
  (List.dropWhile_suffix isSpace).isInfix.trans (trimRight_isPrefix text).isInfix

theorem cutAt_isPrefix (sep : Char) (text : Text) : (cutAt sep text).1 <+: text :=
  List.takeWhile_prefix _

theorem cutAt_isSuffix (sep : Char) (text : Text) : (cutAt sep text).2 <:+ text :=
  (List.drop_suffix 1 _).trans (List.dropWhile_suffix _)

/-- A part that is not trimmed away keeps what stands before it. -/
theorem trimRight_append_of_ne {front text : Text} (h : trimRight text ≠ []) :
    trimRight (front ++ text) = front ++ trimRight text := by
  have hne : text.reverse.dropWhile isSpace ≠ [] := fun hnil => h (by rw [trimRight, hnil]; rfl)
  rw [trimRight, trimRight, List.reverse_append, List.dropWhile_append,
    if_neg (by simpa using hne), List.reverse_append, List.reverse_reverse]

theorem trimRight_append_of_nil {front text : Text} (h : trimRight text = []) :
    trimRight (front ++ text) = trimRight front := by
  have hall := trimRight_eq_nil_iff.mp h
  rw [trimRight, trimRight, List.reverse_append, List.dropWhile_append_of_pos]
  exact fun c hc => hall c (List.mem_reverse.mp hc)

theorem trimRight_cons (c : Char) (text : Text) :
    trimRight (c :: text) =
      if trimRight text = [] ∧ isSpace c = true then [] else c :: trimRight text := by
  by_cases hnil : trimRight text = []
  · rw [← List.singleton_append, trimRight_append_of_nil hnil, hnil]
    cases hc : isSpace c with
    | true => rw [if_pos ⟨rfl, rfl⟩]; simp [trimRight, hc]
    | false => rw [if_neg (by simp)]; simp [trimRight, hc]
  · rw [← List.singleton_append, trimRight_append_of_ne hnil, if_neg (fun h => hnil h.1)]
    rfl

theorem trimRight_cons_of_not_space {c : Char} (h : isSpace c = false) (text : Text) :
    trimRight (c :: text) = c :: trimRight text := by
  rw [trimRight_cons, if_neg]
  rintro ⟨-, hc⟩
  rw [h] at hc
  cases hc

/-- A text that ends in a visible character keeps its end. -/
theorem trimRight_append_of_last {front : Text} {c : Char} (h : isSpace c = false) (text : Text) :
    trimRight (front ++ [c] ++ text) = front ++ [c] ++ trimRight text := by
  by_cases hnil : trimRight text = []
  · rw [trimRight_append_of_nil hnil, hnil, trimRight, List.reverse_append, List.append_nil]
    simp [h]
  · exact trimRight_append_of_ne hnil

theorem trimRight_of_visible {text : Text} (h : ∀ c ∈ text, isSpace c = false) :
    trimRight text = text := by
  induction text with
  | nil => rfl
  | cons c text ih =>
    rw [trimRight_cons_of_not_space (h c List.mem_cons_self),
      ih fun d hd => h d (List.mem_cons_of_mem c hd)]

theorem trim_of_visible {text : Text} (h : ∀ c ∈ text, isSpace c = false) : trim text = text := by
  rw [trim, trimRight_of_visible h, trimLeft]
  cases text with
  | nil => rfl
  | cons c text => rw [List.dropWhile_cons_of_neg (by simp [h c List.mem_cons_self])]

theorem trimRight_trimRight (text : Text) : trimRight (trimRight text) = trimRight text := by
  obtain ⟨tail, htail, hspace⟩ := trimRight_append text
  have hnil : trimRight tail = [] := trimRight_eq_nil_iff.mpr hspace
  conv_rhs => rw [htail, trimRight_append_of_nil hnil]

/-- Trimming hides whether the last line has an end. -/
theorem trimRight_joinWith (lines : List Text) :
    trimRight (joinWith ['\n'] lines) = trimRight (lines.flatMap (· ++ ['\n'])) := by
  have hended : ∀ (line : Text) (lines : List Text),
      (line :: lines).flatMap (· ++ ['\n']) = joinWith ['\n'] (line :: lines) ++ ['\n'] := by
    intro line lines
    induction lines generalizing line with
    | nil => exact List.append_nil _
    | cons other lines ih =>
      show line ++ ['\n'] ++ (other :: lines).flatMap (· ++ ['\n']) =
        line ++ ['\n'] ++ joinWith ['\n'] (other :: lines) ++ ['\n']
      rw [ih, List.append_assoc _ (joinWith ['\n'] (other :: lines))]
  cases lines with
  | nil => rfl
  | cons line lines => rw [hended, trimRight_append_of_nil (by decide)]

end Text

end BitLayout
