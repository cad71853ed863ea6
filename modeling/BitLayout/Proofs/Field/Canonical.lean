import BitLayout.Proofs.Field.RoundTrip

/-!
# The written form of a field is canonical

A line is read in two ways: on its own, where it must not begin like a
definition, and as a line of which that is known already. In both, a field
that is read is read again from what is written for it
(`describe_canonical`), so fields that are written alike are the same field
and writing is a choice of one line among all that describe the field.

For the first way there is the beginning of the line to look at. White
space, a missing width and references may go when the field is written, but
the name is the beginning of the line before and after. A definition begins
without a colon, so a line begins like one exactly when the name does
(`prefix_name_of_prefix_describe`).
-/

namespace BitLayout

namespace Text

/-- Only the white space behind it goes from the beginning of a trimmed text. -/
theorem trim_isPrefix_of_trimmed {text front : Text} (h : text.Trimmed) (hfront : front <+: text) :
    trim front <+: text := by
  have hright := (trimRight_isPrefix front).trans hfront
  have hleft : trimLeft (trimRight front) = trimRight front := by
    cases hcut : trimRight front with
    | nil => rfl
    | cons c rest =>
      obtain ⟨behind, rfl⟩ := hcut ▸ hright
      rw [trimLeft, List.dropWhile_cons_of_neg]
      simp [h.front c rfl]
  rw [trim, hleft]
  exact hright

theorem isPrefix_of_not_mem {sep : Char} {front first rest : Text} (hsep : sep ∉ front)
    (h : front <+: first ++ sep :: rest) : front <+: first := by
  rcases List.prefix_or_prefix_of_prefix h (List.prefix_append first _) with hfirst | hfront
  · exact hfirst
  · obtain ⟨behind, rfl⟩ := hfront
    rw [List.prefix_append_right_inj] at h
    cases behind with
    | nil => exact (List.append_nil first).symm ▸ List.prefix_refl first
    | cons c behind =>
      obtain rfl := (List.cons_prefix_cons.mp h).1
      exact absurd (List.mem_append_right first List.mem_cons_self) hsep

end Text

namespace Field

theorem name_isPrefix {line : Text} {field : Field} (h : ofContent line = .ok field) :
    field.name <+: Text.trim line := by
  obtain ⟨extent, -, rfl⟩ := ofContent_eq_ok_iff.mp h
  exact Text.trim_isPrefix_of_trimmed (Text.trimmed_trim line)
    (Text.cutAt_isPrefix ':' (Text.trim line))

/-- What begins the line of a field without a colon begins its name. -/
theorem prefix_name_of_prefix_describe {front : Text} {field : Field} (hcolon : ':' ∉ front)
    (h : front <+: field.describe) : front <+: field.name := by
  rw [describe, dropEmptyEnd] at h
  generalize (List.dropWhile (· = []) (List.reverse _)).reverse = others at h
  cases others with
  | nil => exact h
  | cons other others =>
    rw [Text.joinWith_cons_cons] at h
    exact Text.isPrefix_of_not_mem hcolon h

theorem colon_not_mem_directives {directive : Text} (h : directive ∈ directives) :
    ':' ∉ directive := by
  simp only [directives, List.mem_cons, List.not_mem_nil, or_false] at h
  rcases h with rfl | rfl | rfl <;> simp

theorem directives_any_eq_false_iff {line : Text} :
    directives.any (·.isPrefixOf line) = false ↔
      ∀ directive ∈ directives, ¬ directive <+: line := by
  simp

theorem ofContent?_describe {line : Text} {field : Field} (h : ofContent? line = some field) :
    ofContent? field.describe = some field :=
  ofContent?_eq_some_iff.mpr (ofContent_describe (ofContent?_eq_some_iff.mp h))

/-- A line that stands for itself is written as one. -/
theorem ofLine?_describe {line : Text} {field : Field} (h : ofLine? line = some field) :
    ofLine? field.describe = some field := by
  obtain ⟨hline, hfield⟩ := ofLine?_eq_some_iff.mp h
  rw [directives_any_eq_false_iff] at hline
  refine ofLine?_eq_some_iff.mpr ⟨directives_any_eq_false_iff.mpr ?_, ofContent_describe hfield⟩
  intro directive hdirective hbegins
  rw [(trimmed_describe hfield).trim_eq] at hbegins
  have hname := prefix_name_of_prefix_describe (colon_not_mem_directives hdirective) hbegins
  exact hline directive hdirective (hname.trans (name_isPrefix hfield))

/-- **What is written for a field describes it**, whichever way its line is read, and nothing but
it: the field can be written, writing the field that is read from it changes nothing, and no other
field is written so. -/
theorem describe_canonical {read : Text → Option Field} (hread : read = ofContent? ∨ read = ofLine?)
    {line : Text} {field : Field} (h : read line = some field) :
    field.describe? = some field.describe ∧
    read field.describe = some field ∧
    (read field.describe).map describe = some field.describe ∧
    ∀ other again, read other = some again → again.describe = field.describe → again = field := by
  have hcontent : ofContent line = .ok field := by
    rcases hread with rfl | rfl
    · exact ofContent?_eq_some_iff.mp h
    · exact (ofLine?_eq_some_iff.mp h).2
  have hagain : ∀ {line : Text} {field : Field}, read line = some field →
      read field.describe = some field := by
    rcases hread with rfl | rfl
    · exact ofContent?_describe
    · exact ofLine?_describe
  refine ⟨describe?_of_ofContent hcontent, hagain h, congrArg (Option.map describe) (hagain h), ?_⟩
  intro other again hother hsame
  exact Option.some.inj ((hagain hother).symm.trans (hsame ▸ hagain h))

/-- An indicator with a mark of its own, a reference that says nothing, and a line feed. -/
theorem describe_canonical_indicator :
    ofLine? " flag:@ 07::A, ,b: x\\n".toList = ofLine? "flag:~7::A,b:x\\n".toList ∧
      (ofLine? "flag:~7::A,b:x\\n".toList).map describe = some "flag:~7::A,b:x\\n".toList := by
  have hread : ofLine? " flag:@ 07::A, ,b: x\\n".toList = some
      ⟨"flag".toList, 0, some 7, none, [['A'], ['b']], some ['x', '\n'], ∅⟩ := by
    decide +kernel
  obtain ⟨-, hagain, hwritten, -⟩ := describe_canonical (.inr rfl) hread
  exact ⟨hread.trans hagain.symm, hwritten⟩

end Field

end BitLayout
