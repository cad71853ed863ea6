import BitLayout.Proofs.Enumeration.Whole
import BitLayout.Proofs.Table

/-!
# The values of an enumeration

What a definition means to a programmer who reads it in C: the members are
gone through from the first to the last, and each has the number written
behind it, or one more than the member before. A name that is listed twice
stands where it is listed first, with the number it is given last.

Here the members are told as they are listed (`ListedTokens`): a word, or a
closed string literal that names what stands between its quotes, then the
number if there is one, and any commas. The reader does not go through them
in these steps. It stores a number for a name before it knows whether the
name has one of its own, and it skips commas in front of a member and not
behind it, so no round of its loop is a member with its commas. Only the
rows of tokens are the same (`ListedTokens.memberTokens`), and the loop is
known to depend on nothing else (`readMembers_of_tokens`).
-/

namespace BitLayout

namespace Enumeration

/-! ## Members as they are listed -/

/-- The name that a token spells: a word is its own name, and that of a literal stands
between its quotes. -/
inductive SpellsName : Token → Text → Prop
  | word {token : Token} (kind : token.kind = .identifier) : SpellsName token token.text
  | literal {token : Token} {name : Text} (kind : token.kind = .string)
      (quoted : token.text = '"' :: (name ++ ['"'])) : SpellsName token name

def Commas (tokens : List Token) : Prop :=
  ∀ token ∈ tokens, token.text = [',']

/-- Members in a row, each with its number if it has one of its own, and any commas
behind it. -/
inductive ListedTokens : List Token → List (Text × Option Int) → Prop
  | nothing : ListedTokens [] []
  | bare {token : Token} {name : Text} {commas tokens : List Token}
      {members : List (Text × Option Int)} (named : SpellsName token name)
      (separators : Commas commas) (others : ListedTokens tokens members) :
      ListedTokens (token :: (commas ++ tokens)) ((name, none) :: members)
  | valued {token equals : Token} {name : Text} {number commas tokens : List Token} {n : Int}
      {members : List (Text × Option Int)} (named : SpellsName token name)
      (sign : equals.text = ['=']) (value : NumberTokens number n) (separators : Commas commas)
      (others : ListedTokens tokens members) :
      ListedTokens (token :: equals :: (number ++ (commas ++ tokens))) ((name, some n) :: members)

theorem SpellsName.memberName?_eq {token : Token} {name : Text} (h : SpellsName token name) :
    memberName? (some token) = some name := by
  obtain ⟨kind, text, offset⟩ := token
  cases h with
  | word kind =>
    obtain rfl : _ = TokenKind.identifier := kind
    rfl
  | literal kind quoted =>
    obtain rfl : _ = TokenKind.string := kind
    obtain rfl : text = '"' :: (name ++ ['"']) := quoted
    simp [memberName?, dropClosingQuote]

theorem ListedTokens.memberTokens {tokens : List Token} {members : List (Text × Option Int)}
    (h : ListedTokens tokens members) : MemberTokens tokens members := by
  induction h with
  | nothing => exact .nothing
  | bare named separators others ih => exact .bare named.memberName?_eq (.commas separators ih)
  | valued named sign value separators others ih =>
    exact .valued named.memberName?_eq sign value (.commas separators ih)

/-! ## What is collected -/

/-- A table that was filled in the order of a list: a name stands where it comes first,
and has the number it comes with last. -/
structure Collects (entries : List (Text × Int)) (table : NameTable) : Prop where
  keys : table.keys = (entries.map Prod.fst).eraseDups
  last : ∀ front name value behind, entries = front ++ (name, value) :: behind →
    name ∉ behind.map Prod.fst → table.find? name = some value

theorem collects_ofList (entries : List (Text × Int)) :
    Collects entries (Table.ofList entries) where
  keys := Table.keys_ofList entries
  last := by
    rintro front name value behind rfl hbehind
    have hlater : (behind.filter fun entry => decide (entry.1 = name)) = [] :=
      Table.filter_of_not_mem hbehind
    rw [Table.find?_ofList, List.filter_append, List.filter_cons, hlater]
    simp

/-- **An enumeration has the values of its members**, and the cursor stands right behind
its closing brace. -/
theorem read_listed {cursor : Cursor} {opening commas inner rest : List Token} {close : Token}
    {tag : Option Text} {members : List (Text × Option Int)}
    (hrow : cursor.row = opening ++ (commas ++ inner ++ close :: rest))
    (hopening : OpeningTokens opening tag) (hcommas : Commas commas)
    (hinner : ListedTokens inner members) (hclose : close.text = ['}']) :
    ∃ table, read cursor = (.ok ⟨tag, table⟩, cursor.seek (close.offset + 1)) ∧
      Collects (valuesFrom 0 members) table := by
  have hmembers : MemberTokens (commas ++ inner) members := .commas hcommas hinner.memberTokens
  have hends : Ends (commas ++ inner) (close :: rest) := Or.inl ⟨close, rest, rfl, hclose⟩
  obtain ⟨later, hread, hlast⟩ := read_of_tokens hopening hmembers hends hrow
  obtain ⟨front, hnext⟩ := hlast close rfl
  obtain ⟨word, others, hword⟩ : ∃ word others, opening = word :: others := by
    cases hopening with
    | untagged begins opens => exact ⟨_, _, rfl⟩
    | tagged begins kind opens => exact ⟨_, _, rfl⟩
  rw [hword] at hrow
  obtain ⟨body, hfirst, -⟩ := Cursor.next_of_row_cons hrow
  have hbuffer := read_buffer cursor
  rw [hread] at hbuffer
  have hlater : later = cursor.seek (close.offset + 1) := by
    rw [Cursor.eq_seek_of_next hfirst hnext hbuffer, Token.stop, hclose]
    rfl
  exact ⟨_, hlater ▸ hread, collects_ofList _⟩

/-- A name that is listed twice, with a literal between, and commas and a comment. -/
theorem read_listed_twice :
    let cursor := Cursor.ofText "enum E \x7b, A = -0x10, \"b c\" /* \x7d */ A \x7d x".toList
    let members := [(['A'], some (-16)), ("b c".toList, none), (['A'], none)]
    ∃ opening commas inner rest close, cursor.row = opening ++ (commas ++ inner ++ close :: rest) ∧
      OpeningTokens opening (some ['E']) ∧ Commas commas ∧ ListedTokens inner members ∧
      close.text = ['\x7d'] ∧ close.offset = 37 ∧
      ∃ table, read cursor = (.ok ⟨some ['E'], table⟩, cursor.seek 38) ∧
        Collects (valuesFrom 0 members) table ∧
        table = Table.ofList [(['A'], -14), ("b c".toList, -15)] := by
  intro cursor members
  let opening : List Token :=
    [⟨.identifier, keyword, 0⟩, ⟨.identifier, ['E'], 5⟩, ⟨.operator, ['\x7b'], 7⟩]
  let number : List Token := [⟨.operator, ['-'], 14⟩, ⟨.numeric, "0x10".toList, 15⟩]
  let inner : List Token := ⟨.identifier, ['A'], 10⟩ :: ⟨.operator, ['='], 12⟩ :: (number ++
    ([⟨.operator, [','], 19⟩] ++ (⟨.string, "\"b c\"".toList, 21⟩ :: ([] ++
      (⟨.identifier, ['A'], 35⟩ :: ([] ++ []))))))
  let close : Token := ⟨.operator, ['\x7d'], 37⟩
  have hrow : cursor.row = opening ++ ([⟨.operator, [','], 8⟩] ++ inner ++
      close :: [⟨.identifier, ['x'], 39⟩]) := by decide +kernel
  have hopening : OpeningTokens opening (some ['E']) := .tagged rfl rfl rfl
  have hcomma : ∀ offset, Commas [⟨.operator, [','], offset⟩] := by simp [Commas]
  have hnumber : NumberTokens number (-16) := .negative rfl rfl (by decide +kernel)
  have hinner : ListedTokens inner members :=
    .valued (.word rfl) rfl hnumber (hcomma 19)
      (.bare (.literal rfl rfl) nofun (.bare (.word rfl) nofun .nothing))
  obtain ⟨table, hread, hcollects⟩ := read_listed hrow hopening (hcomma 8) hinner rfl
  refine ⟨_, _, _, _, close, hrow, hopening, hcomma 8, hinner, rfl, rfl, table, hread, hcollects,
    ?_⟩
  have htable : read cursor = (.ok ⟨some ['E'], Table.ofList [(['A'], -14), ("b c".toList, -15)]⟩,
      cursor.seek 38) := by decide +kernel
  cases hread.symm.trans htable
  rfl

end Enumeration

end BitLayout
