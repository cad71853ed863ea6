import BitLayout.Proofs.Cursor.Row
import BitLayout.Proofs.Document.Reading
import BitLayout.Proofs.Token.Front

/-!
# The grammar of enumerations

What a definition of an enumeration is, as a row of tokens
(`DefinitionTokens`): a keyword, a tag or none, and in braces members and
any commas. What `Enumeration.read` reads is one, and the cursor then stands
behind its closing brace (`definitionTokens_of_read`).

There is one exception, which the loop over the members makes. It looks for
the next member behind any commas, and where it finds the end of the input
instead it stops without an error. So a definition may lack its closing
brace and whatever comes behind that, unless it ends in the name of a
member, behind which the reader looks for more (`CutShort`).

And there is a way to stop in between that is no error of the definition: at
the number of a member that is too long (`StopsLong`,
`stopsLong_of_read`).

A token at which the reader only looks is read again. So the induction along
the loop follows the row that the cursor has ahead, and not its position.
-/

namespace BitLayout

namespace Cursor

/-- A token that is one character of an operator is no word, number or literal. -/
theorem kind_of_operator {cursor later : Cursor} {token : Token} {c : Char}
    (h : cursor.next = (some token, later)) (hc : c ∈ Token.operators) (htext : token.text = [c]) :
    token.kind = .operator := by
  obtain ⟨d, rest, -, -, hlex, -⟩ := next_eq_some h
  have hhead : (Token.lexeme d rest).2.head? = some d := by
    simp only [Token.lexeme]
    split
    · rfl
    split
    · rfl
    split
    · rfl
    · rfl
  rw [← hlex, htext] at hhead
  obtain rfl : c = d := Option.some.inj hhead
  rw [Token.lexeme_operator hc] at hlex
  exact (Prod.mk.inj hlex).1

theorem kind_of_mem_row {cursor : Cursor} {token : Token} {c : Char} (hmem : token ∈ cursor.row)
    (hc : c ∈ Token.operators) (htext : token.text = [c]) : token.kind = .operator := by
  unfold row at hmem
  fun_induction tokens cursor with
  | case1 => cases hmem
  | case2 cursor first later hnext _ others ih =>
    rcases List.mem_cons.mp hmem with rfl | hmem
    · exact kind_of_operator hnext hc htext
    · exact ih hmem

theorem next_of_row_cons {cursor : Cursor} {token : Token} {rest : List Token}
    (h : cursor.row = token :: rest) :
    ∃ later, cursor.next = (some token, later) ∧ later.row = rest := by
  obtain ⟨hfound, hlater⟩ := next_row cursor
  rw [h] at hfound hlater
  exact ⟨cursor.next.2, Prod.ext hfound rfl, hlater⟩

theorem next_of_row_nil {cursor : Cursor} (h : cursor.row = []) :
    ∃ later, cursor.next = (none, later) ∧ later.row = [] := by
  obtain ⟨hfound, hlater⟩ := next_row cursor
  rw [h] at hfound hlater
  exact ⟨cursor.next.2, Prod.ext hfound rfl, hlater⟩

/-- A cursor that has read a token elsewhere in the same text is the cursor moved
behind it. -/
theorem eq_seek_of_next {cursor first front later : Cursor} {token last : Token}
    (h : cursor.next = (some token, first)) (hlast : front.next = (some last, later))
    (hbuffer : later.buffer = cursor.buffer) : later = cursor.seek last.stop := by
  obtain ⟨_, _, hahead, -⟩ := next_eq_some h
  obtain ⟨_, _, hfront, -, -, rfl⟩ := next_eq_some hlast
  have hended : front.ended = cursor.ended :=
    (not_ended_of_ahead hfront).trans (not_ended_of_ahead hahead).symm
  rw [seek_buffer] at hbuffer
  rw [seek, seek, hbuffer, hended]

/-- Looking for a token that is no end of the input: it stands next and is read, or
the cursor stays. -/
theorem want_cases {w : Want} (hw : w.accepts none = false) (cursor : Cursor) :
    (∃ token later, cursor.next = (some token, later) ∧ w.accepts (some token) = true ∧
      cursor.want w = (some (some token), later)) ∨
    (w.accepts cursor.next.1 = false ∧ cursor.want w = (none, cursor)) := by
  rcases hnext : cursor.next with ⟨_ | token, later⟩
  · exact Or.inr ⟨hw, by simp [want, hnext, hw]⟩
  · by_cases haccepts : w.accepts (some token) = true
    · exact Or.inl ⟨token, later, rfl, haccepts, by simp [want, hnext, haccepts]⟩
    · exact Or.inr ⟨Bool.eq_false_iff.mpr haccepts, by simp [want, hnext, haccepts]⟩

end Cursor

namespace Enumeration

/-! ## The grammar -/

/-- A number as it stands behind an equals sign. -/
inductive NumberTokens : List Token → Int → Prop
  | plain {token : Token} {n : Int} (kind : token.kind = .numeric)
      (value : Numeral.read .dec token.text = .ok n) : NumberTokens [token] n
  | negative {minus token : Token} {n : Int} (sign : minus.text = ['-'])
      (kind : token.kind = .numeric) (value : Numeral.read .dec token.text = .ok n) :
      NumberTokens [minus, token] (-n)

/-- A number behind an equals sign that is too long to be read. -/
inductive LongNumberTokens : List Token → Prop
  | plain {token : Token} (kind : token.kind = .numeric)
      (long : Numeral.read .dec token.text = .error .tooLong) : LongNumberTokens [token]
  | negative {minus token : Token} (sign : minus.text = ['-']) (kind : token.kind = .numeric)
      (long : Numeral.read .dec token.text = .error .tooLong) : LongNumberTokens [minus, token]

/-- Members, each with its number if it has one of its own, and any commas
before, between and behind them. -/
inductive MemberTokens : List Token → List (Text × Option Int) → Prop
  | nothing : MemberTokens [] []
  | comma {token : Token} {tokens : List Token} {members : List (Text × Option Int)}
      (text : token.text = [',']) (others : MemberTokens tokens members) :
      MemberTokens (token :: tokens) members
  | bare {token : Token} {name : Text} {tokens : List Token} {members : List (Text × Option Int)}
      (named : memberName? (some token) = some name) (others : MemberTokens tokens members) :
      MemberTokens (token :: tokens) ((name, none) :: members)
  | valued {token equals : Token} {name : Text} {number tokens : List Token} {n : Int}
      {members : List (Text × Option Int)} (named : memberName? (some token) = some name)
      (sign : equals.text = ['=']) (value : NumberTokens number n)
      (others : MemberTokens tokens members) :
      MemberTokens (token :: equals :: (number ++ tokens)) ((name, some n) :: members)

/-- The keyword, the tag if there is one, and the opening brace. -/
inductive OpeningTokens : List Token → Option Text → Prop
  | untagged {word brace : Token} (begins : word.text = keyword) (opens : brace.text = ['{']) :
      OpeningTokens [word, brace] none
  | tagged {word tag brace : Token} (begins : word.text = keyword)
      (kind : tag.kind = .identifier) (opens : brace.text = ['{']) :
      OpeningTokens [word, tag, brace] (some tag.text)

/-- The members with their numbers: its own, or one more than the one before. -/
def valuesFrom (counter : Int) : List (Text × Option Int) → List (Text × Int)
  | [] => []
  | (name, value?) :: members =>
    (name, value?.getD counter) :: valuesFrom (value?.getD counter + 1) members

/-- A whole definition, and what it defines. -/
def DefinitionTokens (tokens : List Token) (enumeration : Enumeration) : Prop :=
  ∃ opening inner members close, tokens = opening ++ inner ++ [close] ∧
    OpeningTokens opening enumeration.name ∧ MemberTokens inner members ∧
    close.text = ['}'] ∧ enumeration.members = Table.ofList (valuesFrom 0 members)

/-- A definition without its closing brace and nothing behind it, which does not
end in the name of a member. -/
def CutShort (row : List Token) : Prop :=
  ∃ opening inner members tag, row = opening ++ inner ∧ OpeningTokens opening tag ∧
    MemberTokens inner members ∧ memberName? row.getLast? = none

/-- A definition up to the number of one of its members, which is too long, and anything
behind that. -/
def StopsLong (row : List Token) : Prop :=
  ∃ opening inner members tag word equals number rest,
    row = opening ++ (inner ++ word :: equals :: (number ++ rest)) ∧ OpeningTokens opening tag ∧
    MemberTokens inner members ∧ (memberName? (some word)).isSome ∧ equals.text = ['='] ∧
    LongNumberTokens number

/-! ## What is read is a definition -/

theorem MemberTokens.commas {commas tokens : List Token} {members : List (Text × Option Int)}
    (hcommas : ∀ token ∈ commas, token.text = [',']) (h : MemberTokens tokens members) :
    MemberTokens (commas ++ tokens) members := by
  induction commas with
  | nil => exact h
  | cons token commas ih =>
    exact .comma (hcommas token List.mem_cons_self)
      (ih fun other hother => hcommas other (List.mem_cons_of_mem token hother))

/-- A minus sign that is looked for is a token of the row if it is found. -/
theorem row_of_sign {cursor later : Cursor} {token : Token}
    (h : (cursor.want (.text ['-'])).2.next = (some token, later)) :
    (∃ minus : Token, minus.text = ['-'] ∧ (cursor.want (.text ['-'])).1.isSome = true ∧
      cursor.row = minus :: token :: later.row) ∨
    ((cursor.want (.text ['-'])).1.isSome = false ∧ cursor.row = token :: later.row) := by
  rcases Cursor.want_cases (w := .text ['-']) rfl cursor with
    ⟨minus, front, hminus, haccepts, hwant⟩ | ⟨-, hwant⟩
  · rw [hwant] at h ⊢
    refine Or.inl ⟨minus, eq_of_beq haccepts, rfl, ?_⟩
    rw [Cursor.row_of_next_some hminus, Cursor.row_of_next_some h]
  · rw [hwant] at h ⊢
    exact Or.inr ⟨rfl, Cursor.row_of_next_some h⟩

theorem numberTokens_of_readNumber {cursor later : Cursor} {n : Int}
    (h : readNumber cursor = (.ok n, later)) :
    ∃ tokens, NumberTokens tokens n ∧ cursor.row = tokens ++ later.row := by
  simp only [readNumber] at h
  split at h
  · next text offset behind hnext =>
    split at h
    · next value hvalue =>
      rcases row_of_sign hnext with ⟨minus, hminus, hsome, hrow⟩ | ⟨hsome, hrow⟩
      · rw [hsome] at h
        cases h
        exact ⟨[minus, ⟨.numeric, text, offset⟩], .negative hminus rfl hvalue, hrow⟩
      · rw [hsome] at h
        cases h
        exact ⟨[⟨.numeric, text, offset⟩], .plain rfl hvalue, hrow⟩
    · cases h
  · cases h

theorem longNumberTokens_of_readNumber {cursor later : Cursor}
    (h : readNumber cursor = (.error .tooLong, later)) :
    ∃ tokens, LongNumberTokens tokens ∧ cursor.row = tokens ++ later.row := by
  simp only [readNumber] at h
  split at h
  · next text offset behind hnext =>
    split at h
    · cases h
    · next failure hfailure =>
      cases failure with
      | refused e => cases h
      | tooLong =>
        cases h
        rcases row_of_sign hnext with ⟨minus, hminus, -, hrow⟩ | ⟨-, hrow⟩
        · exact ⟨[minus, ⟨.numeric, text, offset⟩], .negative hminus rfl hfailure, hrow⟩
        · exact ⟨[⟨.numeric, text, offset⟩], .plain rfl hfailure, hrow⟩
  · cases h

/-- Skipping commas leaves the row behind them; at the end of the input nothing. -/
theorem row_exhaust_commas (cursor : Cursor) :
    ∃ commas, (∀ token ∈ commas, token.text = [',']) ∧
      cursor.row = commas ++ (cursor.exhaust (.text [','])).2.row ∧
      ((cursor.exhaust (.text [','])).1 = true → (cursor.exhaust (.text [','])).2.row = []) := by
  obtain ⟨hflag, hrow⟩ := Cursor.exhaust_row (.text [',']) cursor
  refine ⟨cursor.row.takeWhile (Want.takes (.text [','])), ?_, ?_, ?_⟩
  · intro token htoken
    have htakes : Want.takes (.text [',']) token = true := List.mem_takeWhile_imp htoken
    exact eq_of_beq htakes
  · rw [hrow, List.takeWhile_append_dropWhile]
  · intro htrue
    rw [hrow]
    exact List.isEmpty_iff.mp (hflag.symm.trans htrue)

/-- Behind a name stands its number, or something that does not belong to the
member; the end of the input is refused here. -/
theorem tokens_of_readMemberEnd {cursor later : Cursor} {name : Text} {member : Member}
    (h : readMemberEnd name cursor = (.ok member, later)) :
    (member = .named name none ∧ cursor.row = later.row ∧ later.row ≠ []) ∨
    ∃ equals number n, member = .named name (some n) ∧ equals.text = ['='] ∧
      NumberTokens number n ∧ cursor.row = equals :: (number ++ later.row) := by
  unfold readMemberEnd at h
  split at h
  · cases h
  · next token behind hnext =>
    split at h
    · cases h
      have hrow := Cursor.row_seek_offset hnext
      rw [hrow]
      refine Or.inl ⟨rfl, rfl, ?_⟩
      rw [Cursor.row_of_next_some hnext]
      exact List.cons_ne_nil _ _
    · split at h
      · next hequals =>
        rcases hnumber : readNumber behind with ⟨error | n, last⟩
        · rw [hnumber] at h
          cases h
        · rw [hnumber] at h
          cases h
          obtain ⟨number, hvalue, hrow⟩ := numberTokens_of_readNumber hnumber
          refine Or.inr ⟨token, number, n, rfl, hequals, hvalue, ?_⟩
          rw [Cursor.row_of_next_some hnext, hrow]
      · cases h

theorem memberName?_getLast?_number {number : List Token} {n : Int} (h : NumberTokens number n) :
    ∃ token, number.getLast? = some token ∧ memberName? (some token) = none := by
  have hnumeric : ∀ token : Token, token.kind = .numeric → memberName? (some token) = none := by
    rintro ⟨kind, text, offset⟩ hkind
    cases hkind
    rfl
  cases h with
  | plain kind value => exact ⟨_, rfl, hnumeric _ kind⟩
  | negative sign kind value => exact ⟨_, rfl, hnumeric _ kind⟩

/-- One round of the loop: a closing brace, the end of the input, or a member. -/
theorem tokens_of_readMember {cursor later : Cursor} {member : Member}
    (h : readMember cursor = (.ok member, later)) :
    ∃ commas, (∀ token ∈ commas, token.text = [',']) ∧
      ((member = .last ∧ cursor.row = commas) ∨
      (∃ (front : Cursor) (close : Token), member = .last ∧
        cursor.row = commas ++ close :: later.row ∧ close.text = ['}'] ∧
        front.next = (some close, later)) ∨
      ∃ (token : Token) (behind : Cursor) (name : Text),
        cursor.row = commas ++ token :: behind.row ∧ memberName? (some token) = some name ∧
          readMemberEnd name behind = (.ok member, later)) := by
  obtain ⟨commas, hcommas, hrow, hend⟩ := row_exhaust_commas cursor
  refine ⟨commas, hcommas, ?_⟩
  unfold readMember at h
  split at h
  · next ended hexhaust =>
    rw [hexhaust] at hrow hend
    cases h
    rw [hend rfl, List.append_nil] at hrow
    exact Or.inl ⟨rfl, hrow⟩
  · next front hexhaust =>
    rw [hexhaust] at hrow
    dsimp only at h hrow
    rcases hnext : front.next with ⟨_ | token, behind⟩
    · rw [hnext] at h
      simp [Token.textOf, memberName?] at h
    · rw [Cursor.row_of_next_some hnext] at hrow
      rw [hnext] at h
      split at h
      · next hbrace =>
        cases h
        exact Or.inr (Or.inl ⟨front, token, rfl, hrow, hbrace, hnext⟩)
      · split at h
        · next name hname => exact Or.inr (Or.inr ⟨token, behind, name, hrow, hname, h⟩)
        · cases h

theorem tokens_of_readMember_named {cursor later : Cursor} {name : Text} {value? : Option Int}
    (h : readMember cursor = (.ok (.named name value?), later)) :
    ∃ front, cursor.row = front ++ later.row ∧
      (∀ tokens members, MemberTokens tokens members →
        MemberTokens (front ++ tokens) ((name, value?) :: members)) ∧
      (later.row = [] → memberName? front.getLast? = none) := by
  obtain ⟨commas, hcommas, hround⟩ := tokens_of_readMember h
  rcases hround with ⟨hlast, -⟩ | ⟨_, _, hlast, -⟩ | ⟨token, behind, name, hrow, hname, hend⟩
  · cases hlast
  · cases hlast
  · rcases tokens_of_readMemberEnd hend with ⟨hmember, hbehind, hne⟩ |
      ⟨equals, number, n, hmember, hequals, hnumber, hbehind⟩
    · cases hmember
      refine ⟨commas ++ [token], ?_, ?_, fun hnil => absurd hnil hne⟩
      · rw [hrow, hbehind, List.append_assoc, List.singleton_append]
      · intro tokens members hothers
        rw [List.append_assoc]
        exact .commas hcommas (.bare hname hothers)
    · cases hmember
      refine ⟨commas ++ token :: equals :: number, ?_, ?_, fun _ => ?_⟩
      · rw [hrow, hbehind, List.append_assoc, List.cons_append, List.cons_append]
      · intro tokens members hothers
        rw [List.append_assoc]
        exact .commas hcommas (.valued hname hequals hnumber hothers)
      · obtain ⟨last, hget, hlast⟩ := memberName?_getLast?_number hnumber
        rwa [List.getLast?_append, List.getLast?_cons_cons, List.getLast?_cons, hget]

/-- **The loop over the members.** Where it ends, a brace was read behind the
members or the input is at its end. -/
theorem tokens_of_readMembers {before all : NameTable} {counter : Int} {cursor later : Cursor}
    (h : readMembers before counter cursor = (.ok all, later)) :
    ∃ inner members, MemberTokens inner members ∧
      ((cursor.row = inner ∧ memberName? inner.getLast? = none) ∨
      ∃ (front : Cursor) (close : Token), cursor.row = inner ++ close :: later.row ∧
        close.text = ['}'] ∧ front.next = (some close, later) ∧
        all = before.insertAll (valuesFrom counter members)) := by
  fun_induction readMembers before counter cursor with
  | case1 => cases h
  | case2 before counter cursor ended hlast =>
    cases h
    obtain ⟨commas, hcommas, hround⟩ := tokens_of_readMember hlast
    have hinner := MemberTokens.commas hcommas .nothing
    rw [List.append_nil] at hinner
    refine ⟨commas, [], hinner, ?_⟩
    rcases hround with ⟨-, hrow⟩ | ⟨front, close, -, hrow, hclose, hnext⟩ |
      ⟨token, behind, name, -, -, hend⟩
    · refine Or.inl ⟨hrow, ?_⟩
      cases hget : commas.getLast? with
      | none => rfl
      | some token =>
        have hmem := List.mem_of_getLast? hget
        have hkind := Cursor.kind_of_mem_row (hrow ▸ hmem) (c := ',') (by decide) (hcommas token hmem)
        obtain ⟨kind, text, offset⟩ := token
        cases hkind
        rfl
    · exact Or.inr ⟨front, close, hrow, hclose, hnext, rfl⟩
    · rcases tokens_of_readMemberEnd hend with ⟨hmember, -⟩ | ⟨_, _, _, hmember, -⟩ <;> cases hmember
  | case3 before counter cursor name value? middle hmember _ value ih =>
    obtain ⟨inner, members, hinner, hcase⟩ := ih h
    obtain ⟨front, hrow, htokens, hlast⟩ := tokens_of_readMember_named hmember
    refine ⟨front ++ inner, (name, value?) :: members, htokens inner members hinner, ?_⟩
    rcases hcase with ⟨hmiddle, hend⟩ | ⟨closing, close, hmiddle, hclose, hnext, hall⟩
    · refine Or.inl ⟨by rw [hrow, hmiddle], ?_⟩
      cases inner with
      | nil =>
        rw [List.append_nil]
        exact hlast hmiddle
      | cons token inner =>
        rwa [List.getLast?_append_of_ne_nil _ (List.cons_ne_nil token inner)]
    · refine Or.inr ⟨closing, close, ?_, hclose, hnext, hall⟩
      rw [hrow, hmiddle, List.append_assoc]

/-- The tag and the opening brace. -/
theorem tokens_of_readTag (cursor : Cursor) :
    ((readTag cursor).1 = none ∧ (readTag cursor).2 = cursor) ∨
    ∃ tag, tag.kind = .identifier ∧ (readTag cursor).1 = some tag.text ∧
      cursor.row = tag :: (readTag cursor).2.row := by
  rcases Cursor.want_cases (w := .kind (some .identifier)) rfl cursor with
    ⟨tag, later, hnext, haccepts, hwant⟩ | ⟨-, hwant⟩
  · have hkind : tag.kind = .identifier := Option.some.inj (eq_of_beq haccepts)
    refine Or.inr ⟨tag, hkind, ?_, ?_⟩
    · rw [readTag, hwant]
      rfl
    · rw [readTag, hwant]
      exact Cursor.row_of_next_some hnext
  · refine Or.inl ⟨?_, ?_⟩ <;> rw [readTag, hwant]

theorem opening_of_readTag {cursor inside : Cursor} {brace : Token}
    (hnext : (readTag cursor).2.next = (some brace, inside)) (hopens : brace.text = ['{']) :
    ∃ opening : List Token, opening.getLast? = some brace ∧
      (∀ word : Token, word.text = keyword →
        OpeningTokens (word :: opening) (readTag cursor).1) ∧
      cursor.row = opening ++ inside.row := by
  have hrow := Cursor.row_of_next_some hnext
  rcases tokens_of_readTag cursor with ⟨htag, hstay⟩ | ⟨tag, hkind, htag, htagged⟩
  · refine ⟨[brace], rfl, fun word hword => ?_, by rw [← hstay, hrow]; rfl⟩
    rw [htag]
    exact .untagged hword hopens
  · refine ⟨[tag, brace], rfl, fun word hword => ?_, by rw [htagged, hrow]; rfl⟩
    rw [htag]
    exact .tagged hword hkind hopens

theorem tokens_of_readBody {cursor later : Cursor} {enumeration : Enumeration}
    (h : readBody cursor = (.ok enumeration, later)) :
    ∃ opening inner members,
      (∀ word : Token, word.text = keyword → OpeningTokens (word :: opening) enumeration.name) ∧
      MemberTokens inner members ∧
      ((cursor.row = opening ++ inner ∧ ∃ last, (opening ++ inner).getLast? = some last ∧
        memberName? (some last) = none) ∨
      ∃ (front : Cursor) (close : Token), cursor.row = opening ++ inner ++ close :: later.row ∧
        close.text = ['}'] ∧ front.next = (some close, later) ∧
        enumeration.members = Table.ofList (valuesFrom 0 members)) := by
  simp only [readBody] at h
  rcases hnext : (readTag cursor).2.next with ⟨_ | brace, inside⟩
  · rw [hnext] at h
    simp [Token.textOf] at h
  rw [hnext] at h
  split at h
  · next hbrace =>
    have hopens : brace.text = ['{'] := hbrace
    rcases hmembers : readMembers ∅ 0 inside with ⟨_ | all, last⟩
    · rw [hmembers] at h
      cases h
    rw [hmembers] at h
    cases h
    obtain ⟨inner, members, hinner, hcase⟩ := tokens_of_readMembers hmembers
    obtain ⟨opening, hlast, hopening, hfront⟩ := opening_of_readTag hnext hopens
    refine ⟨opening, inner, members, hopening, hinner, ?_⟩
    rcases hcase with ⟨hinside, hend⟩ | ⟨front, close, hinside, hclose, hlater, hall⟩
    · refine Or.inl ⟨by rw [hfront, hinside], ?_⟩
      cases hget : inner.getLast? with
      | none =>
        refine ⟨brace, ?_, ?_⟩
        · rw [List.getLast?_eq_none_iff.mp hget, List.append_nil, hlast]
        · have hkind := Cursor.kind_of_operator hnext (by decide) hopens
          obtain ⟨kind, text, offset⟩ := brace
          cases hkind
          rfl
      | some token =>
        refine ⟨token, ?_, hget ▸ hend⟩
        rw [List.getLast?_append, hget]
        rfl
    · refine Or.inr ⟨front, close, ?_, hclose, hlater, hall⟩
      rw [hfront, hinside, List.append_assoc]
  · cases h

/-- What is read is a definition, or one that is cut short. -/
theorem definitionTokens_of_read {cursor later : Cursor} {enumeration : Enumeration}
    (h : read cursor = (.ok enumeration, later)) :
    CutShort cursor.row ∨
    ∃ tokens close, cursor.row = tokens ++ close :: later.row ∧
      DefinitionTokens (tokens ++ [close]) enumeration ∧ later = cursor.seek (close.offset + 1) := by
  have hbuffer := read_buffer cursor
  rw [h] at hbuffer
  rcases Cursor.want_cases (w := .text keyword) rfl cursor with
    ⟨word, body, hnext, haccepts, hwant⟩ | ⟨-, hwant⟩
  · rw [read, hwant] at h
    have hword : word.text = keyword := eq_of_beq haccepts
    obtain ⟨opening, inner, members, hopening, hinner, hcase⟩ := tokens_of_readBody h
    have hrow := Cursor.row_of_next_some hnext
    rcases hcase with ⟨hbody, last, hlast, hname⟩ | ⟨front, close, hbody, hclose, hlater, hall⟩
    · refine Or.inl ⟨word :: opening, inner, members, _, by rw [hrow, hbody]; rfl,
        hopening word hword, hinner, ?_⟩
      rw [hrow, hbody, List.getLast?_cons, hlast]
      exact hname
    · refine Or.inr ⟨word :: (opening ++ inner), close, by rw [hrow, hbody]; rfl,
        ⟨word :: opening, inner, members, close, rfl, hopening word hword, hinner, hclose, hall⟩, ?_⟩
      rw [Cursor.eq_seek_of_next hnext hlater hbuffer, Token.stop, hclose]
      rfl
  · rw [read, hwant] at h
    cases h

/-! ## Numbers that are too long -/

theorem longNumberTokens_of_readMemberEnd {cursor later : Cursor} {name : Text}
    (h : readMemberEnd name cursor = (.error .tooLong, later)) :
    ∃ equals number, equals.text = ['='] ∧ LongNumberTokens number ∧
      cursor.row = equals :: (number ++ later.row) := by
  unfold readMemberEnd at h
  split at h
  · cases h
  · next token behind hnext =>
    split at h
    · cases h
    · split at h
      · next hequals =>
        rcases hnumber : readNumber behind with ⟨failure | n, last⟩
        · rw [hnumber] at h
          cases h
          obtain ⟨number, hlong, hrow⟩ := longNumberTokens_of_readNumber hnumber
          exact ⟨token, number, hequals, hlong, by rw [Cursor.row_of_next_some hnext, hrow]⟩
        · rw [hnumber] at h
          cases h
      · cases h

theorem tokens_of_readMember_tooLong {cursor later : Cursor}
    (h : readMember cursor = (.error .tooLong, later)) :
    ∃ inner word equals number, MemberTokens inner [] ∧ (memberName? (some word)).isSome ∧
      equals.text = ['='] ∧ LongNumberTokens number ∧
      cursor.row = inner ++ word :: equals :: (number ++ later.row) := by
  obtain ⟨commas, hcommas, hrow, -⟩ := row_exhaust_commas cursor
  have hinner := MemberTokens.commas hcommas .nothing
  rw [List.append_nil] at hinner
  unfold readMember at h
  split at h
  · cases h
  · next front hexhaust =>
    rw [hexhaust] at hrow
    dsimp only at h hrow
    split at h
    · cases h
    · split at h
      · next name hname =>
        rcases hnext : front.next with ⟨_ | word, behind⟩
        · rw [hnext] at hname
          cases hname
        · rw [hnext] at h hname
          obtain ⟨equals, number, hequals, hlong, hbehind⟩ := longNumberTokens_of_readMemberEnd h
          refine ⟨commas, word, equals, number, hinner, Option.isSome_of_eq_some hname, hequals,
            hlong, ?_⟩
          rw [hrow, Cursor.row_of_next_some hnext, hbehind]
      · cases h

theorem tokens_of_readMembers_tooLong {before : NameTable} {counter : Int} {cursor later : Cursor}
    (h : readMembers before counter cursor = (.error .tooLong, later)) :
    ∃ inner members word equals number, MemberTokens inner members ∧
      (memberName? (some word)).isSome ∧ equals.text = ['='] ∧ LongNumberTokens number ∧
      cursor.row = inner ++ word :: equals :: (number ++ later.row) := by
  fun_induction readMembers before counter cursor with
  | case1 before counter cursor failure last hmember =>
    cases h
    obtain ⟨inner, word, equals, number, hinner, hword, hequals, hlong, hrow⟩ :=
      tokens_of_readMember_tooLong hmember
    exact ⟨inner, [], word, equals, number, hinner, hword, hequals, hlong, hrow⟩
  | case2 => cases h
  | case3 before counter cursor name value? middle hmember _ value ih =>
    obtain ⟨inner, members, word, equals, number, hinner, hword, hequals, hlong, hmiddle⟩ := ih h
    obtain ⟨front, hrow, htokens, -⟩ := tokens_of_readMember_named hmember
    refine ⟨front ++ inner, (name, value?) :: members, word, equals, number,
      htokens inner members hinner, hword, hequals, hlong, ?_⟩
    rw [hrow, hmiddle, List.append_assoc]

/-- Reading stops without an answer only at a number that is too long. -/
theorem stopsLong_of_read {cursor later : Cursor} (h : read cursor = (.error .tooLong, later)) :
    StopsLong cursor.row := by
  rcases Cursor.want_cases (w := .text keyword) rfl cursor with
    ⟨first, body, hfirst, haccepts, hwant⟩ | ⟨-, hwant⟩
  · rw [read, hwant] at h
    simp only [readBody] at h
    rcases hnext : (readTag body).2.next with ⟨_ | brace, inside⟩
    · rw [hnext] at h
      cases h
    rw [hnext] at h
    split at h
    · next hopens =>
      rcases hmembers : readMembers ∅ 0 inside with ⟨failure | all, last⟩
      · rw [hmembers] at h
        cases h
        obtain ⟨inner, members, word, equals, number, hinner, hword, hequals, hlong, hinside⟩ :=
          tokens_of_readMembers_tooLong hmembers
        obtain ⟨opening, -, hopening, hfront⟩ := opening_of_readTag hnext hopens
        refine ⟨first :: opening, inner, members, _, word, equals, number, last.row, ?_,
          hopening first (eq_of_beq haccepts), hinner, hword, hequals, hlong⟩
        rw [Cursor.row_of_next_some hfirst, hfront, hinside]
        rfl
      · rw [hmembers] at h
        cases h
    · cases h
  · rw [read, hwant] at h
    cases h

end Enumeration

end BitLayout
