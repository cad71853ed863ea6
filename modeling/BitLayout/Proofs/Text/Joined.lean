import BitLayout.Proofs.Text.Trim

/-!
# Joined lines

Lines are joined by replacing a pair of neighbours by a blank. What is
found in the joined text without the blank was there before, and no such
pair is left (`not_infix_replacePair`).

A description has its lines joined where a backslash stands before the line
feed (`Text.joined`). Of several backslashes the last one joins. What is
cut at a place where no pair stands can be joined in parts, and joining
twice changes nothing more.
-/

namespace BitLayout

namespace Text

theorem prefix_of_replacePair {old new : Char} {text piece : Text} :
    piece <+: replacePair old new [' '] text → ' ' ∉ piece → piece <+: text := by
  fun_induction replacePair old new [' '] text generalizing piece with
  | case1 x y t heq ih =>
    intro hprefix hblank
    cases piece with
    | nil => exact List.nil_prefix
    | cons d piece =>
      obtain rfl : d = ' ' := (List.cons_prefix_cons.mp hprefix).1
      exact absurd List.mem_cons_self hblank
  | case2 x y t hne ih =>
    intro hprefix hblank
    cases piece with
    | nil => exact List.nil_prefix
    | cons d piece =>
      obtain ⟨rfl, hrest⟩ := List.cons_prefix_cons.mp hprefix
      exact List.cons_prefix_cons.mpr
        ⟨rfl, ih hrest fun hmem => hblank (List.mem_cons_of_mem _ hmem)⟩
  | case3 t _ => exact fun hprefix _ => hprefix

theorem infix_of_replacePair {old new : Char} {text piece : Text} :
    piece <:+: replacePair old new [' '] text → ' ' ∉ piece → piece <:+: text := by
  fun_induction replacePair old new [' '] text with
  | case1 x y t heq ih =>
    intro hinfix hblank
    rcases List.infix_cons_iff.mp hinfix with hprefix | hinfix
    · cases piece with
      | nil => exact List.nil_infix
      | cons d piece =>
        obtain rfl : d = ' ' := (List.cons_prefix_cons.mp hprefix).1
        exact absurd List.mem_cons_self hblank
    · exact (ih hinfix hblank).trans ((List.suffix_cons y t).trans (List.suffix_cons x _)).isInfix
  | case2 x y t hne ih =>
    intro hinfix hblank
    rcases List.infix_cons_iff.mp hinfix with hprefix | hinfix
    · have hwhole : piece <+: replacePair old new [' '] (x :: y :: t) := by
        rw [replacePair, if_neg hne]
        exact hprefix
      exact (prefix_of_replacePair hwhole hblank).isInfix
    · exact (ih hinfix hblank).trans (List.suffix_cons x _).isInfix
  | case3 t _ => exact fun hinfix _ => hinfix

theorem replacePair_cons {a b c : Char} {new text : Text} (h : c = a → text.head? ≠ some b) :
    replacePair a b new (c :: text) = c :: replacePair a b new text := by
  cases text with
  | nil => rfl
  | cons d text =>
    rw [replacePair, if_neg]
    rintro ⟨rfl, rfl⟩
    exact h rfl rfl

/-- What begins a text or its end stays there, if it is not replaced. -/
theorem ends_replacePair (a b new : Char) (text : Text) :
    ((replacePair a b [new] text).head? = text.head? ∨
        (replacePair a b [new] text).head? = some new) ∧
      ((replacePair a b [new] text).getLast? = text.getLast? ∨
        (replacePair a b [new] text).getLast? = some new) := by
  fun_induction replacePair a b [new] text with
  | case1 x y t h ih =>
    refine ⟨Or.inr rfl, ?_⟩
    rw [List.singleton_append, List.getLast?_cons]
    cases t with
    | nil => exact Or.inr rfl
    | cons z t =>
      rw [List.getLast?_cons_cons, List.getLast?_cons_cons]
      rcases ih.2 with hlast | hlast
      · rw [hlast, List.getLast?_cons]
        exact Or.inl rfl
      · rw [hlast]
        exact Or.inr rfl
  | case2 x y t h ih =>
    refine ⟨Or.inl rfl, ?_⟩
    rw [List.getLast?_cons, List.getLast?_cons_cons]
    rcases ih.2 with hlast | hlast
    · rw [hlast, List.getLast?_cons]
      exact Or.inl rfl
    · rw [hlast]
      exact Or.inr rfl
  | case3 t => exact ⟨Or.inl rfl, Or.inl rfl⟩

/-- Where pairs were replaced by something else, none is left. -/
theorem not_infix_replacePair {a b new : Char} (ha : a ≠ new) (hb : b ≠ new) (text : Text) :
    ¬ [a, b] <:+: replacePair a b [new] text := by
  fun_induction replacePair a b [new] text with
  | case1 x y t h ih =>
    intro hinfix
    rcases List.infix_cons_iff.mp hinfix with hprefix | hinfix
    · exact ha (List.cons_prefix_cons.mp hprefix).1
    · exact ih hinfix
  | case2 x y t h ih =>
    intro hinfix
    rcases List.infix_cons_iff.mp hinfix with hprefix | hinfix
    · obtain ⟨rfl, hrest⟩ := List.cons_prefix_cons.mp hprefix
      obtain ⟨rest, hrest⟩ := hrest
      rcases (ends_replacePair a b new (y :: t)).1 with hhead | hhead
      · rw [← hrest] at hhead
        exact h ⟨rfl, (Option.some.inj hhead).symm⟩
      · rw [← hrest] at hhead
        exact hb (Option.some.inj hhead)
    · exact ih hinfix
  | case3 t hshort =>
    rintro ⟨front, back, rfl⟩
    cases front with
    | nil => exact hshort a b back rfl
    | cons c front =>
      cases front with
      | nil => exact hshort c a (b :: back) rfl
      | cons d front => exact hshort c d (front ++ [a, b] ++ back) (by simp)

/-- The text with a blank for each line feed that stands behind a backslash, and for
that backslash. -/
def joined (text : Text) : Text :=
  replacePair '\\' '\n' [' '] text

theorem joined_pair (text : Text) : joined ('\\' :: '\n' :: text) = ' ' :: joined text := rfl

theorem joined_cons {c : Char} {text : Text} (h : c = '\\' → text.head? ≠ some '\n') :
    joined (c :: text) = c :: joined text :=
  replacePair_cons h

theorem joined_cons_of_ne {c : Char} (h : c ≠ '\\') (text : Text) :
    joined (c :: text) = c :: joined text :=
  joined_cons fun hc => absurd hc h

/-- Induction along the pairs of a text. -/
@[elab_as_elim] theorem joined_induction {motive : Text → Prop} (nil : motive [])
    (pair : ∀ text, motive text → motive ('\\' :: '\n' :: text))
    (cons : ∀ c text, (c = '\\' → text.head? ≠ some '\n') → motive text → motive (c :: text))
    (text : Text) : motive text := by
  fun_induction replacePair '\\' '\n' [' '] text with
  | case1 c d text heq ih =>
    obtain ⟨rfl, rfl⟩ := heq
    exact pair text ih
  | case2 c d text hne ih =>
    exact cons c (d :: text) (fun hc hd => hne ⟨hc, Option.some.inj hd⟩) ih
  | case3 text hshort =>
    cases text with
    | nil => exact nil
    | cons c text =>
      cases text with
      | nil => exact cons c [] (fun _ => nofun) nil
      | cons d text => exact (hshort c d text rfl).elim

theorem joined_eq_nil_iff {text : Text} : joined text = [] ↔ text = [] := by
  induction text using joined_induction with
  | nil => exact Iff.rfl
  | pair text => exact iff_of_false nofun nofun
  | cons c text h =>
    rw [joined_cons h]
    exact iff_of_false nofun nofun

/-- A text that is joined begins as it did, or with the blank. -/
theorem head?_joined (text : Text) :
    (joined text).head? = text.head? ∨ (joined text).head? = some ' ' := by
  induction text using joined_induction with
  | nil => exact Or.inl rfl
  | pair text => exact Or.inr rfl
  | cons c text h =>
    rw [joined_cons h]
    exact Or.inl rfl

theorem head?_joined_ne {text : Text} {c : Char} (hc : c ≠ ' ') (h : text.head? ≠ some c) :
    (joined text).head? ≠ some c := by
  rcases head?_joined text with heq | heq
  · rw [heq]
    exact h
  · rw [heq]
    exact fun hblank => hc (Option.some.inj hblank).symm

theorem joined_joined (text : Text) : joined (joined text) = joined text := by
  induction text using joined_induction with
  | nil => rfl
  | pair text ih => rw [joined_pair, joined_cons_of_ne (by decide), ih]
  | cons c text h ih =>
    rw [joined_cons h, joined_cons fun hc => head?_joined_ne (by decide) (h hc), ih]

theorem not_infix_joined (text : Text) : ¬ ['\\', '\n'] <:+: joined text :=
  not_infix_replacePair (by decide) (by decide) text

/-- Where no pair stands there is nothing to join. -/
theorem joined_of_no_pair {text : Text} (h : ¬ ['\\', '\n'] <:+: text) : joined text = text := by
  induction text using joined_induction with
  | nil => rfl
  | pair text => exact absurd (List.prefix_append ['\\', '\n'] text).isInfix h
  | cons c text hpair ih =>
    rw [joined_cons hpair, ih fun hin => h (hin.trans (List.suffix_cons c text).isInfix)]

theorem joined_append {front : Text} (h : '\\' ∉ front) (text : Text) :
    joined (front ++ text) = front ++ joined text := by
  induction front with
  | nil => rfl
  | cons c front ih =>
    rw [List.cons_append, joined_cons_of_ne (List.ne_of_not_mem_cons h).symm,
      ih (List.not_mem_of_not_mem_cons h), List.cons_append]

theorem joined_append_of_head {text : Text} (h : text.head? ≠ some '\n') (front : Text) :
    joined (front ++ text) = joined front ++ joined text := by
  induction front using joined_induction with
  | nil => rfl
  | pair front ih => exact congrArg (List.cons ' ') ih
  | cons c front hpair ih =>
    have hhead : c = '\\' → (front ++ text).head? ≠ some '\n' := by
      intro hc
      cases front with
      | nil => exact h
      | cons d front => exact hpair hc
    rw [List.cons_append, joined_cons hhead, joined_cons hpair, ih, List.cons_append]

/-- White space at the end can be trimmed before or after, unless that lays a
backslash bare. -/
theorem trimRight_joined {text : Text} (h : (trimRight text).getLast? ≠ some '\\') :
    trimRight (joined text) = joined (trimRight text) := by
  have hslash : isSpace '\\' = false := by decide
  induction text using joined_induction with
  | nil => rfl
  | pair text ih =>
    rw [trimRight_cons_of_not_space hslash, trimRight_cons] at h ⊢
    split at h
    · exact absurd rfl h
    · next hvisible =>
      have hne : trimRight text ≠ [] := fun hnil => hvisible ⟨hnil, rfl⟩
      have hlast : (trimRight text).getLast? ≠ some '\\' := by
        rwa [List.getLast?_cons_cons, List.getLast?_cons_of_ne_nil hne] at h
      rw [if_neg hvisible, joined_pair, joined_pair, trimRight_cons, ih hlast,
        if_neg fun hnil => hne (joined_eq_nil_iff.mp hnil.1)]
  | cons c text hpair ih =>
    by_cases hnil : trimRight text = []
    · have hjoined : trimRight (joined text) = [] := by
        rw [ih (by rw [hnil]; nofun), hnil]
        rfl
      rw [joined_cons hpair, trimRight_cons, trimRight_cons, hnil, hjoined]
      split
      · rfl
      · rfl
    · rw [trimRight_cons, if_neg (fun hspace => hnil hspace.1)] at h ⊢
      rw [List.getLast?_cons_of_ne_nil hnil] at h
      have hhead : c = '\\' → (trimRight text).head? ≠ some '\n' := by
        intro hc hhead
        refine hpair hc ?_
        obtain ⟨tail, htail⟩ := trimRight_isPrefix text
        rw [← htail, List.head?_append_of_ne_nil _ hnil]
        exact hhead
      rw [joined_cons hpair, joined_cons hhead, trimRight_cons, ih h,
        if_neg fun hspace => hnil (joined_eq_nil_iff.mp hspace.1)]

end Text

end BitLayout
