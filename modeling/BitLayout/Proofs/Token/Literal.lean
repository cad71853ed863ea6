import BitLayout.Proofs.Text.Joined
import BitLayout.Proofs.Token.Front

/-!
# Open literals

A literal runs on behind its quote as long as it is open (`Token.Open`), and
either that is to the end of the text, or it is closed by the next quote of
its sort (`literal_cases`).

A line feed is sheltered if it stands in an open literal, without a backslash
before it (`Token.Sheltered`): nothing that looks for the end of a line
finds it there. Separators are neither quotes nor backslashes, so whether a
literal is open and its line feeds are sheltered can be told from the pieces
between them (`open_append_cons`, `Sheltered.append_cons`). White space at
the ends of a piece makes no difference.
-/

namespace BitLayout

namespace Text

/-- Induction along the escapes of a text. The last one may be incomplete. -/
@[elab_as_elim] theorem escape_induction {motive : Text → Prop} (nil : motive [])
    (half : motive ['\\'])
    (escape : ∀ c text, motive text → motive ('\\' :: c :: text))
    (char : ∀ c text, c ≠ '\\' → motive text → motive (c :: text)) :
    ∀ text, motive text
  | [] => nil
  | [c] => if h : c = '\\' then h ▸ half else char c [] h nil
  | c :: d :: text =>
    if h : c = '\\' then h ▸ escape d text (escape_induction nil half escape char text)
    else char c (d :: text) h (escape_induction nil half escape char (d :: text))

/-- Where a character of a whole is found in one of its two parts. -/
theorem mem_part_of_append {a b front back : Text} {c : Char} (h : a ++ b = front ++ c :: back) :
    (∃ behind, a = front ++ c :: behind) ∨
      ∃ before, front = a ++ before ∧ b = before ++ c :: back := by
  rcases List.append_eq_append_iff.mp h with ⟨before, hfront, hb⟩ | ⟨behind, ha, hback⟩
  · exact Or.inr ⟨before, hfront, hb⟩
  · cases behind with
    | nil =>
      rw [List.append_nil] at ha
      exact Or.inr ⟨[], by rw [ha, List.append_nil], hback.symm⟩
    | cons d behind =>
      obtain ⟨rfl, -⟩ := List.cons.inj hback
      exact Or.inl ⟨behind, ha⟩

end Text

namespace Token

/-- The text behind the quote of a literal does not close it. Of an escape at its
end, the second half may be missing. -/
inductive Open (quote : Char) : Text → Prop where
  | nil : Open quote []
  | half : Open quote ['\\']
  | escape {c : Char} {text : Text} (h : Open quote text) : Open quote ('\\' :: c :: text)
  | char {c : Char} {text : Text} (hslash : c ≠ '\\') (hquote : c ≠ quote) (h : Open quote text) :
      Open quote (c :: text)

variable {quote : Char}

@[simp] theorem open_escape {c : Char} {text : Text} :
    Open quote ('\\' :: c :: text) ↔ Open quote text := by
  refine ⟨fun h => ?_, .escape⟩
  cases h with
  | escape h => exact h
  | char hslash => exact absurd rfl hslash

theorem open_cons {c : Char} {text : Text} (hslash : c ≠ '\\') :
    Open quote (c :: text) ↔ c ≠ quote ∧ Open quote text := by
  refine ⟨fun h => ?_, fun h => .char hslash h.1 h.2⟩
  cases h with
  | half => exact absurd rfl hslash
  | escape => exact absurd rfl hslash
  | char _ hquote h => exact ⟨hquote, h⟩

theorem open_of_not_mem {text : Text} (hslash : '\\' ∉ text) (hquote : quote ∉ text) :
    Open quote text := by
  induction text with
  | nil => exact .nil
  | cons c text ih =>
    exact .char (List.ne_of_not_mem_cons hslash).symm (List.ne_of_not_mem_cons hquote).symm
      (ih (List.not_mem_of_not_mem_cons hslash) (List.not_mem_of_not_mem_cons hquote))

theorem Open.of_append {text rest : Text} (h : Open quote (text ++ rest)) : Open quote text := by
  induction text using Text.escape_induction with
  | nil => exact .nil
  | half => exact .half
  | escape c text ih => exact .escape (ih (open_escape.mp h))
  | char c text hslash ih =>
    obtain ⟨hquote, hrest⟩ := (open_cons hslash).mp h
    exact .char hslash hquote (ih hrest)

/-- A separator is passed over in an open literal, whether a backslash stands before
it or not. -/
theorem open_append_cons {sep : Char} (hslash : sep ≠ '\\') (hquote : sep ≠ quote)
    {front rest : Text} :
    Open quote (front ++ sep :: rest) ↔ Open quote front ∧ Open quote rest := by
  induction front using Text.escape_induction with
  | nil => simp [open_cons hslash, hquote, Open.nil]
  | half => simp [Open.half]
  | escape c front ih => simpa using ih
  | char c front hc ih => simp [open_cons hc, ih, and_assoc]

/-! ## Literals -/

theorem literalTail_cons {c : Char} {text : Text} (hslash : c ≠ '\\') :
    literalTail quote (c :: text) = if c = quote then [c] else c :: literalTail quote text := by
  rw [literalTail]
  · exact fun h => absurd h hslash
  · exact fun d t h => absurd h hslash

/-- A literal goes on behind what leaves it open. -/
theorem Open.literalTail_append {front : Text} (h : Open quote front)
    (hlast : front.getLast? ≠ some '\\') (rest : Text) :
    literalTail quote (front ++ rest) = front ++ literalTail quote rest := by
  induction h with
  | nil => rfl
  | half => exact absurd rfl hlast
  | @escape c front _ ih =>
    have hbehind : front.getLast? ≠ some '\\' := by
      cases front with
      | nil => nofun
      | cons d front => exact hlast
    exact congrArg (fun tail => '\\' :: c :: tail) (ih hbehind)
  | @char c front hslash hquote _ ih =>
    have hbehind : front.getLast? ≠ some '\\' := by
      cases front with
      | nil => nofun
      | cons d front => exact hlast
    rw [List.cons_append, literalTail_cons hslash, if_neg hquote, ih hbehind, List.cons_append]

/-- **A literal is open to the end of the text, or closed.** Where it is closed does not
depend on what follows. -/
theorem literal_cases (hquote : quote ≠ '\\') (text : Text) :
    Open quote text ∧ literalTail quote text = text ∨
      ∃ body tail, text = body ++ quote :: tail ∧ Open quote body ∧
        ∀ other, literalTail quote (body ++ quote :: other) = body ++ [quote] := by
  induction text using Text.escape_induction with
  | nil => exact Or.inl ⟨.nil, rfl⟩
  | half => exact Or.inl ⟨.half, rfl⟩
  | escape c text ih =>
    rcases ih with ⟨hopen, htail⟩ | ⟨body, tail, rfl, hopen, hclosed⟩
    · exact Or.inl ⟨.escape hopen, congrArg (fun tail => '\\' :: c :: tail) htail⟩
    · refine Or.inr ⟨'\\' :: c :: body, tail, rfl, .escape hopen, fun other => ?_⟩
      exact congrArg (fun tail => '\\' :: c :: tail) (hclosed other)
  | char c text hslash ih =>
    by_cases hc : c = quote
    · subst hc
      refine Or.inr ⟨[], text, rfl, .nil, fun other => ?_⟩
      rw [List.nil_append, literalTail_cons hslash, if_pos rfl, List.nil_append]
    · rcases ih with ⟨hopen, htail⟩ | ⟨body, tail, rfl, hopen, hclosed⟩
      · exact Or.inl ⟨.char hslash hc hopen, by rw [literalTail_cons hslash, if_neg hc, htail]⟩
      · refine Or.inr ⟨c :: body, tail, rfl, .char hslash hc hopen, fun other => ?_⟩
        rw [List.cons_append, literalTail_cons hslash, if_neg hc, hclosed, List.cons_append]

/-- What is open stays open where its lines are joined. -/
theorem Open.joined (hquote : quote ≠ ' ') {text : Text} (h : Open quote text) :
    Open quote text.joined := by
  have hblank : ' ' ≠ '\\' := by decide
  have hfeed : '\n' ≠ '\\' := by decide
  induction h with
  | nil => exact .nil
  | half => exact .half
  | @escape c text _ ih =>
    by_cases hc : c = '\n'
    · subst hc
      rw [Text.joined_pair]
      exact .char hblank hquote.symm ih
    · have hfirst : (c :: text).head? ≠ some '\n' := fun heq => hc (Option.some.inj heq)
      rw [Text.joined_cons fun _ => hfirst]
      by_cases hpair : c = '\\' ∧ text.head? = some '\n'
      · obtain ⟨rfl, hhead⟩ := hpair
        obtain ⟨rest, rfl⟩ := List.head?_eq_some_iff.mp hhead
        rw [Text.joined_cons_of_ne hfeed] at ih
        rw [Text.joined_pair]
        exact .escape ((open_cons hfeed).mp ih).2
      · rw [Text.joined_cons fun hslash hhead => hpair ⟨hslash, hhead⟩]
        exact .escape ih
  | @char c text hslash hc _ ih =>
    rw [Text.joined_cons_of_ne hslash]
    exact .char hslash hc ih

/-! ## Sheltered line feeds -/

/-- Each line feed of the text behind the quote of a literal is one of its
characters, and no backslash stands before it. -/
def Sheltered (quote : Char) (text : Text) : Prop :=
  ∀ front back, text = front ++ '\n' :: back →
    Open quote front ∧ front.getLast? ≠ some '\\'

theorem sheltered_of_not_mem {text : Text} (h : '\n' ∉ text) : Sheltered quote text := by
  rintro front back rfl
  exact absurd (List.mem_append_right front List.mem_cons_self) h

theorem sheltered_of_open {text : Text} (h : Open quote text)
    (hpair : ¬ ['\\', '\n'] <:+: text) : Sheltered quote text := by
  rintro front back rfl
  refine ⟨h.of_append, fun hlast => hpair ?_⟩
  obtain ⟨before, rfl⟩ := List.getLast?_eq_some_iff.mp hlast
  exact ⟨before, back, by simp⟩

theorem Sheltered.of_append {text rest : Text} (h : Sheltered quote (text ++ rest)) :
    Sheltered quote text := by
  rintro front back rfl
  exact h front (back ++ rest) (by simp)

theorem Sheltered.append_of_not_mem {text rest : Text} (h : Sheltered quote text)
    (hrest : '\n' ∉ rest) : Sheltered quote (text ++ rest) := by
  intro front back heq
  rcases Text.mem_part_of_append heq with ⟨behind, htext⟩ | ⟨before, -, rfl⟩
  · exact h front behind htext
  · exact absurd (List.mem_append_right before List.mem_cons_self) hrest

section Separator

variable {sep : Char} {front rest : Text}

/-- Behind a separator the line feeds are as sheltered as they were. -/
theorem Sheltered.behind (hslash : sep ≠ '\\') (hquote : sep ≠ quote)
    (h : Sheltered quote (front ++ sep :: rest)) : Sheltered quote rest := by
  rintro before back rfl
  obtain ⟨hopen, hlast⟩ := h (front ++ sep :: before) back (by simp)
  refine ⟨((open_append_cons hslash hquote).mp hopen).2, ?_⟩
  cases before with
  | nil => nofun
  | cons c before =>
    rwa [List.getLast?_append_of_ne_nil _ (List.cons_ne_nil sep (c :: before)),
      List.getLast?_cons_cons] at hlast

/-- A literal is open where a line feed comes behind. -/
theorem Sheltered.open_front (h : Sheltered quote (front ++ sep :: rest)) (hmem : '\n' ∈ rest) :
    Open quote front := by
  obtain ⟨before, back, rfl⟩ := List.append_of_mem hmem
  have hopen := (h (front ++ sep :: before) back (by simp)).1
  exact hopen.of_append

theorem Sheltered.append_cons (hslash : sep ≠ '\\') (hquote : sep ≠ quote) (hfeed : sep ≠ '\n')
    (hfront : Sheltered quote front) (hrest : Sheltered quote rest)
    (hopen : '\n' ∈ rest → Open quote front) : Sheltered quote (front ++ sep :: rest) := by
  intro before back heq
  rcases Text.mem_part_of_append heq with ⟨behind, hfrontEq⟩ | ⟨middle, rfl, hrestEq⟩
  · exact hfront before behind hfrontEq
  · cases middle with
    | nil => exact absurd (List.cons.inj hrestEq).1 hfeed
    | cons c middle =>
      obtain ⟨rfl, rfl⟩ := List.cons.inj hrestEq
      obtain ⟨hmiddle, hlast⟩ := hrest middle back rfl
      have hfrontOpen := hopen (List.mem_append_right middle List.mem_cons_self)
      refine ⟨(open_append_cons hslash hquote).mpr ⟨hfrontOpen, hmiddle⟩, ?_⟩
      rw [List.getLast?_append_of_ne_nil _ (List.cons_ne_nil sep middle), List.getLast?_cons]
      intro heq
      cases hmid : middle.getLast? with
      | none =>
        rw [hmid] at heq
        exact hslash (Option.some.inj heq)
      | some d =>
        rw [hmid] at heq hlast
        exact hlast heq

end Separator

/-! ## Rewriting the pieces -/

/-- A text that may be written for another one in front of the end of a line. -/
structure Keeps (quote : Char) (text written : Text) : Prop where
  feeds : '\n' ∈ written → '\n' ∈ text
  sheltered : Sheltered quote text → Sheltered quote written

/-- A text that may be written for another one, with more of the literal behind. -/
structure KeepsOpen (quote : Char) (text written : Text) : Prop extends
    Keeps quote text written where
  opened : Open quote text → Open quote written

theorem keeps_of_not_mem {text written : Text} (h : '\n' ∉ written) : Keeps quote text written :=
  ⟨fun hmem => absurd hmem h, fun _ => sheltered_of_not_mem h⟩

theorem KeepsOpen.refl (text : Text) : KeepsOpen quote text text :=
  ⟨⟨id, id⟩, id⟩

theorem KeepsOpen.trans {text middle written : Text} (h : KeepsOpen quote text middle)
    (h' : KeepsOpen quote middle written) : KeepsOpen quote text written :=
  ⟨⟨fun hmem => h.feeds (h'.feeds hmem), fun hs => h'.sheltered (h.sheltered hs)⟩,
    fun ho => h'.opened (h.opened ho)⟩

theorem KeepsOpen.of_append {text written : Text} (h : KeepsOpen quote text written) (rest : Text) :
    KeepsOpen quote (text ++ rest) written :=
  ⟨⟨fun hmem => List.mem_append_left rest (h.feeds hmem),
    fun hwhole => h.sheltered hwhole.of_append⟩, fun hwhole => h.opened hwhole.of_append⟩

section Separator

variable {sep : Char} {front rest front' rest' : Text}

/-- What stands before a separator can be left out. -/
theorem KeepsOpen.behind (hslash : sep ≠ '\\') (hquote : sep ≠ quote) (front : Text)
    (h : KeepsOpen quote rest rest') : KeepsOpen quote (front ++ sep :: rest) rest' :=
  ⟨⟨fun hmem => List.mem_append_right front (List.mem_cons_of_mem sep (h.feeds hmem)),
    fun hwhole => h.sheltered (hwhole.behind hslash hquote)⟩,
    fun hwhole => h.opened ((open_append_cons hslash hquote).mp hwhole).2⟩

theorem Keeps.append_cons (hslash : sep ≠ '\\') (hquote : sep ≠ quote) (hfeed : sep ≠ '\n')
    (hfront : KeepsOpen quote front front') (hrest : Keeps quote rest rest') :
    Keeps quote (front ++ sep :: rest) (front' ++ sep :: rest') := by
  refine ⟨fun hmem => ?_, fun h => ?_⟩
  · rcases List.mem_append.mp hmem with hmem | hmem
    · exact List.mem_append_left _ (hfront.feeds hmem)
    · rcases List.mem_cons.mp hmem with heq | hmem
      · exact absurd heq.symm hfeed
      · exact List.mem_append_right front (List.mem_cons_of_mem sep (hrest.feeds hmem))
  · exact (hfront.sheltered h.of_append).append_cons hslash hquote hfeed
      (hrest.sheltered (h.behind hslash hquote))
      fun hmem => hfront.opened (h.open_front (hrest.feeds hmem))

theorem KeepsOpen.append_cons (hslash : sep ≠ '\\') (hquote : sep ≠ quote) (hfeed : sep ≠ '\n')
    (hfront : KeepsOpen quote front front') (hrest : KeepsOpen quote rest rest') :
    KeepsOpen quote (front ++ sep :: rest) (front' ++ sep :: rest') := by
  refine ⟨Keeps.append_cons hslash hquote hfeed hfront hrest.toKeeps, fun h => ?_⟩
  obtain ⟨hopen, hbehind⟩ := (open_append_cons hslash hquote).mp h
  exact (open_append_cons hslash hquote).mpr ⟨hfront.opened hopen, hrest.opened hbehind⟩

end Separator

/-- White space at the ends of a piece can be left out. -/
theorem keepsOpen_trim (hquote : Text.isSpace quote = false) (text : Text) :
    KeepsOpen quote text (Text.trim text) := by
  have hfront : ∀ (front rest : Text), (∀ c ∈ front, Text.isSpace c = true) →
      KeepsOpen quote (front ++ rest) rest := by
    intro front rest hspace
    induction front with
    | nil => exact .refl rest
    | cons c front ih =>
      have hc := hspace c List.mem_cons_self
      have hslash : c ≠ '\\' := by
        rintro rfl
        exact absurd hc (by decide)
      have hne : c ≠ quote := by
        rintro rfl
        rw [hquote] at hc
        cases hc
      exact (ih fun d hd => hspace d (List.mem_cons_of_mem c hd)).behind hslash hne []
  obtain ⟨tail, htail, -⟩ := Text.trimRight_append text
  have hcut : (Text.trimRight text).takeWhile Text.isSpace ++ Text.trim text =
      Text.trimRight text := List.takeWhile_append_dropWhile
  have hkeeps := (hfront _ (Text.trim text)
    (List.all_eq_true.mp (List.all_takeWhile (l := Text.trimRight text)))).of_append tail
  rwa [hcut, ← htail] at hkeeps

/-! ## Lines -/

/-- The characters that literals begin and end with. -/
def IsQuote (c : Char) : Prop :=
  c = '"' ∨ c = '\''

theorem IsQuote.ne {c d : Char} (h : IsQuote c) (hd : ¬ IsQuote d) : d ≠ c := by
  rintro rfl
  exact hd h

theorem IsQuote.visible {c : Char} (h : IsQuote c) : Text.isSpace c = false := by
  rcases h with rfl | rfl
  · decide
  · decide

/-- Behind its first character another token has word characters only. -/
theorem word_of_lexeme {c d : Char} {rest tail : Text} (h : ¬ IsQuote c)
    (hword : (lexeme c rest).2 = c :: tail) (hd : d ∈ tail) : isWordChar d = true := by
  obtain ⟨hstring, hchar⟩ := not_or.mp h
  rw [lexeme, if_neg hstring, if_neg hchar] at hword
  split at hword
  · obtain rfl : [] = tail := (List.cons.inj hword).2
    cases hd
  · obtain rfl : rest.takeWhile isWordChar = tail := (List.cons.inj hword).2
    exact List.mem_takeWhile_imp hd

theorem lexeme_quote {c : Char} (h : IsQuote c) (rest : Text) :
    (lexeme c rest).2 = c :: literalTail c rest := by
  rcases h with rfl | rfl
  · rfl
  · rfl

/-- **A token is an open literal** up to the end of the text, or it ends where it does
whatever may follow, as long as that does not make a word longer. -/
theorem lexeme_cases {c : Char} (hslash : c ≠ '\\') (rest : Text) :
    IsQuote c ∧ Open c rest ∧ (lexeme c rest).2 = c :: rest ∨
      ∃ tail behind, rest = tail ++ behind ∧
        (∀ d, (c :: tail).getLast? = some d → d = c ∨ isWordChar d = true) ∧
        ∀ other, (EndsWord behind → EndsWord other) →
          lexeme c (tail ++ other) = ((lexeme c rest).1, c :: tail) := by
  by_cases hquote : IsQuote c
  · have hkind : ∀ rest other, (lexeme c rest).1 = (lexeme c other).1 := by
      rcases hquote with rfl | rfl
      · exact fun _ _ => rfl
      · exact fun _ _ => rfl
    rcases literal_cases hslash rest with ⟨hopen, htail⟩ | ⟨body, behind, rfl, -, hclosed⟩
    · exact Or.inl ⟨hquote, hopen, by rw [lexeme_quote hquote, htail]⟩
    · refine Or.inr ⟨body ++ [c], behind, by simp, fun d hd => Or.inl ?_, fun other _ => ?_⟩
      · rw [← List.cons_append, List.getLast?_concat] at hd
        exact (Option.some.inj hd).symm
      · refine Prod.ext (hkind _ _) ?_
        rw [lexeme_quote hquote, List.append_assoc, List.singleton_append, hclosed]
  · by_cases hoperator : c ∈ operators
    · refine Or.inr ⟨[], rest, rfl, fun d hd => Or.inl (Option.some.inj hd).symm, fun other _ => ?_⟩
      rw [lexeme_operator hoperator, lexeme_operator hoperator]
    · have htail : ∀ d ∈ rest.takeWhile isWordChar, isWordChar d = true :=
        fun d hd => List.mem_takeWhile_imp hd
      have hlexeme : ∀ other, EndsWord other → lexeme c (rest.takeWhile isWordChar ++ other) =
          (wordKind (c :: rest.takeWhile isWordChar), c :: rest.takeWhile isWordChar) :=
        fun other => lexeme_word (fun heq => hquote (Or.inl heq)) (fun heq => hquote (Or.inr heq))
          hoperator htail
      have hrest := hlexeme _ (endsWord_dropWhile rest)
      rw [List.takeWhile_append_dropWhile] at hrest
      refine Or.inr ⟨rest.takeWhile isWordChar, rest.dropWhile isWordChar,
        List.takeWhile_append_dropWhile.symm, fun d hd => ?_, fun other hother => ?_⟩
      · rcases List.mem_cons.mp (List.mem_of_getLast? hd) with heq | hd
        · exact Or.inl heq
        · exact Or.inr (htail d hd)
      · rw [hlexeme other (hother (endsWord_dropWhile rest)), hrest]

end Token

namespace Text

open Token (IsQuote Sheltered)

/-- The only line feeds are those of a literal at the front, and no backslash stands
before them. -/
def FeedsQuoted (line : Text) : Prop :=
  '\n' ∈ line → ∃ quote rest, line = quote :: rest ∧ IsQuote quote ∧ Sheltered quote rest

theorem FeedsQuoted.of_not_mem {line : Text} (h : '\n' ∉ line) : line.FeedsQuoted :=
  fun hmem => absurd hmem h

/-- The line that begins with a token: what follows the token on the line may be
joined to the lines below, but has no line feed then. -/
theorem feedsQuoted_joined {c : Char} {rest tail behind cut : Text} (hslash : c ≠ '\\')
    (hfeed : c ≠ '\n') (hword : (Token.lexeme c rest).2 = c :: tail)
    (hrest : rest = tail ++ behind) (hcut : cut <+: behind) (hjoined : '\n' ∉ joined cut) :
    (joined (c :: (tail ++ cut))).FeedsQuoted := by
  by_cases hquote : IsQuote c
  · have hblank : c ≠ ' ' := (hquote.ne (by unfold IsQuote; decide)).symm
    obtain rfl : Token.literalTail c rest = tail :=
      (List.cons.inj ((Token.lexeme_quote hquote rest).symm.trans hword)).2
    refine fun _ => ⟨c, _, joined_cons_of_ne hslash _, hquote, ?_⟩
    rcases Token.literal_cases hslash rest with ⟨hopen, htail⟩ | ⟨body, tail, rfl, hopen, hclosed⟩
    · have hnil : behind = [] := by
        rw [htail] at hrest
        exact List.self_eq_append_right.mp hrest
      obtain rfl : cut = [] := List.prefix_nil.mp (hnil ▸ hcut)
      rw [htail, List.append_nil]
      exact Token.sheltered_of_open (hopen.joined hblank) (not_infix_joined rest)
    · have hhead : (c :: cut).head? ≠ some '\n' := fun heq => hfeed (Option.some.inj heq)
      rw [hclosed, List.append_assoc, List.singleton_append,
        joined_append_of_head hhead, joined_cons_of_ne hslash]
      have hbody := Token.sheltered_of_open (hopen.joined hblank) (not_infix_joined body)
      refine hbody.append_of_not_mem fun hmem => ?_
      rcases List.mem_cons.mp hmem with heq | hmem
      · exact hfeed heq.symm
      · exact hjoined hmem
  · refine .of_not_mem fun hmem => ?_
    have hplain : ∀ d, d ≠ c → Token.isWordChar d = false → d ∉ c :: tail := by
      intro d hne hd hmem
      rcases List.mem_cons.mp hmem with heq | hmem
      · exact hne heq
      · exact Token.not_wordChar (Token.word_of_lexeme hquote hword hmem) hd rfl
    rw [← List.cons_append, joined_append (hplain '\\' hslash.symm rfl)] at hmem
    rcases List.mem_append.mp hmem with hmem | hmem
    · exact hplain '\n' hfeed.symm rfl hmem
    · exact hjoined hmem

end Text

end BitLayout
