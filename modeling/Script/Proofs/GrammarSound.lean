import Script.Proofs.GrammarRules
import Script.Proofs.GrammarSteps

/-!
# Whatever is read is derived

Every rule of the grammar consumes tokens that stand for the tree that it gives. The room that a
reader has and the level of nesting that it reads at add up to one more than `maxNesting`.

## Key results

- `expression_sound`: an expression that is read is derived
- `statement_sound`: a statement that is read is derived, and no `else` that it could take is left
- `program_sound`: a program that is read is derived, from all the tokens
-/

namespace Script.Grammar

open Script.Parser

variable {α : Type} {d room : Nat}

/-- The tokens that a parser consumes stand for what it gives. -/
def Sound (parser : Parser α) (stands : List Token → α → Prop) : Prop :=
  ∀ ⦃tokens : List Token⦄ ⦃a : α⦄ ⦃rest : List Token⦄, parser tokens = .ok a rest →
    ∃ consumed, tokens = consumed ++ rest ∧ stands consumed a

/-! ## Lists -/

/-- The items behind the first one are read with a comma in front of each. -/
private theorem listRest_sound {item : Parser α} {stands : List Token → α → Prop} {closing : Symbol}
    (hclosing : closing ≠ .comma) (hitem : Sound item stands) {bound tokens rest : List Token}
    {items : List α} (h : listRest item closing bound tokens = .ok items rest)
    (first : List Token) :
    ∃ (parts : List (List Token × α)) (more : List Token) (close : Token),
      (∀ part ∈ parts, stands part.1 part.2) ∧ items = parts.map Prod.snd ∧
        Separated (first :: parts.map Prod.fst) (first ++ more) ∧
        close.kind = .symbol closing ∧ tokens = more ++ close :: rest := by
  induction bound generalizing tokens items first with
  | nil => simp [listRest] at h
  | cons _ bound ih =>
    rcases (listRest_cons_ok hclosing).mp h with
      ⟨comma, _, a, _, others, rfl, hcomma, ha, hothers, rfl⟩ | ⟨close, rfl, hclose, rfl⟩
    · -- The item behind the comma is the first of the items that are still to come.
      obtain ⟨consumed, rfl, hstands⟩ := hitem ha
      obtain ⟨parts, more, close, hparts, rfl, hsep, hclose, rfl⟩ := ih hothers consumed
      refine ⟨(consumed, a) :: parts, comma :: (consumed ++ more), close, ?_, rfl,
        .more hcomma hsep, hclose, by simp⟩
      exact List.forall_mem_cons.mpr ⟨hstands, hparts⟩
    · exact ⟨[], [], close, by simp, rfl, by simpa using Separated.one first, hclose, rfl⟩

/-- A list is read item by item, up to the closing sign. -/
private theorem listUntil_sound {item : Parser α} {stands : List Token → α → Prop}
    {closing : Symbol}
    (hclosing : closing ≠ .comma) (hitem : Sound item stands) {tokens rest : List Token}
    {items : List α} (h : listUntil item closing tokens = .ok items rest) :
    ∃ (parts : List (List Token × α)) (inner : List Token) (close : Token),
      (∀ part ∈ parts, stands part.1 part.2) ∧ items = parts.map Prod.snd ∧
        Separated (parts.map Prod.fst) inner ∧
        close.kind = .symbol closing ∧ tokens = inner ++ close :: rest := by
  -- Either the closing sign stands there at once, or an item does and the rest of the list.
  rcases listUntil_ok.mp h with ⟨close, rfl, hclose, rfl⟩ | ⟨-, a, _, others, ha, hothers, rfl⟩
  · exact ⟨[], [], close, by simp, rfl, .none, hclose, rfl⟩
  · obtain ⟨consumed, rfl, hstands⟩ := hitem ha
    obtain ⟨parts, more, close, hparts, rfl, hsep, hclose, rfl⟩ :=
      listRest_sound hclosing hitem hothers consumed
    refine ⟨(consumed, a) :: parts, consumed ++ more, close, ?_, rfl, hsep, hclose, by simp⟩
    exact List.forall_mem_cons.mpr ⟨hstands, hparts⟩

/-! ## Expressions -/

section Expressions

variable {nested : Parser Expr}

/-- What is read as a factor is one of the grammar. -/
private theorem factor_sound (hnested : Sound nested (Derives (d + 1) .expression)) :
    Sound (factor nested) (Derives d .factor) := by
  intro tokens e rest h
  -- The first token is a literal, a name or an opening parenthesis.
  obtain ⟨token, more, rfl, ⟨value, hkind⟩ | ⟨name, hkind⟩ | hkind⟩ := factor_first h
  · rw [factor_literal hkind] at h
    cases h
    exact ⟨[token], rfl, .literal hkind⟩
  · rcases (factor_identifier_ok hkind).mp h with
      ⟨opening, inner, arguments, rfl, hopening, harguments, rfl⟩ | ⟨-, rfl, rfl⟩
    · obtain ⟨parts, inner, closing, hparts, rfl, hsep, hclosing, rfl⟩ :=
        listUntil_sound (by decide) hnested harguments
      exact ⟨token :: opening :: (inner ++ [closing]), by simp,
        .call hkind hopening hparts hsep hclosing⟩
    · exact ⟨[token], rfl, .identifier hkind⟩
  · obtain ⟨closing, hinner, hclosing⟩ := (factor_parentheses_ok hkind).mp h
    obtain ⟨consumed, rfl, hderives⟩ := hnested hinner
    exact ⟨token :: (consumed ++ [closing]), by simp, .parentheses hkind hderives hclosing⟩

/-- What is read as a unary phrase is one of the grammar. -/
theorem unary_sound (hnested : Sound nested (Derives (d + 1) .expression)) :
    Sound (unary nested) (Derives d .unary) := by
  intro tokens e rest h
  cases tokens with
  | nil => simp [unary] at h
  | cons token more =>
    cases hop : UnaryOp.ofToken? token.kind with
    | none =>
      rw [unary_bare hop] at h
      obtain ⟨consumed, heq, hderives⟩ := factor_sound hnested h
      exact ⟨consumed, heq, .bare hderives⟩
    | some op =>
      obtain ⟨first, inner, operand, rfl, hfits, hoperand, rfl⟩ := (unary_operator_ok hop).mp h
      obtain ⟨consumed, heq, hderives⟩ := factor_sound hnested hoperand
      -- The token that was checked is the first one of the operand.
      obtain ⟨_, more, rfl, -⟩ := hderives.first
      cases heq
      have hmem : (token.kind, op) ∈ unaryRow := (mem_unaryRow_iff _ _).mpr hop
      exact ⟨_, rfl, .unary hmem ((operand_iff _ _).mpr hfits) hderives⟩

/-- The operators of a row and their operands are added to what is read on their left. -/
private theorem operations_sound {n : Nat} (hn : n < 8) {operand : Parser Expr}
    (hoperand : Sound operand (Derives d (.chain n))) {bound tokens rest leftTokens : List Token}
    {left e : Expr} (hleft : Derives d (.chain (n + 1)) leftTokens left)
    (h : operations (8 - n) operand bound left tokens = .ok e rest) :
    ∃ consumed, tokens = consumed ++ rest ∧
      Derives d (.chain (n + 1)) (leftTokens ++ consumed) e := by
  induction bound generalizing tokens leftTokens left with
  | nil =>
    obtain ⟨rfl, rfl⟩ := pure_ok.mp h
    exact ⟨[], rfl, by simpa using hleft⟩
  | cons head bound ih =>
    rcases noOperator_or (8 - n) tokens with hnone | ⟨token, more, op, rfl, hop, htight⟩
    · rw [operations_end hnone] at h
      cases h
      exact ⟨[], rfl, by simpa using hleft⟩
    · rw [operations_operator hop htight, bind_ok] at h
      obtain ⟨right, _, hread, hmore⟩ := h
      obtain ⟨rightTokens, rfl, hright⟩ := hoperand hread
      obtain ⟨row, hrow, hmem⟩ := (mem_operatorRows_iff n token.kind op).mpr ⟨hn, hop, htight⟩
      -- What has been read so far is the left operand of the next round.
      obtain ⟨consumed, rfl, hderives⟩ := ih (.operation hrow hmem hleft hright) hmore
      exact ⟨token :: (rightTokens ++ consumed), by simp, by simpa using hderives⟩

/-- What is read at a level is a chain of the operations of this level and the tighter ones. -/
private theorem level_sound (hnested : Sound nested (Derives (d + 1) .expression)) {n : Nat}
    (hn : n ≤ 8) :
    Sound (level nested n) (Derives d (.chain n)) := by
  induction n with
  | zero =>
    intro tokens e rest h
    obtain ⟨consumed, heq, hderives⟩ := unary_sound hnested h
    exact ⟨consumed, heq, .operand hderives⟩
  | succ n ih =>
    intro tokens e rest h
    have hoperand : Sound (level nested n) (Derives d (.chain n)) := ih (by omega)
    obtain ⟨first, mid, hread, hmore⟩ := level_succ_ok.mp h
    obtain ⟨firstTokens, rfl, hfirst⟩ := hoperand hread
    obtain ⟨consumed, rfl, hderives⟩ := operations_sound (by omega) hoperand (.single hfirst) hmore
    exact ⟨firstTokens ++ consumed, by simp, hderives⟩

/-- What is read as a type test is one of the grammar, or a chain alone. -/
private theorem typeTest_sound (hnested : Sound nested (Derives (d + 1) .expression)) :
    Sound (typeTest nested) (Derives d .typeTest) := by
  intro tokens e rest h
  have hoperand : Sound (level nested 8) (Derives d (.chain 8)) := level_sound hnested (by omega)
  obtain ⟨left, mid, hread, hmore⟩ := typeTest_ok.mp h
  obtain ⟨leftTokens, rfl, hleft⟩ := hoperand hread
  rcases hmore with ⟨token, more, right, rfl, hkind, hread, rfl⟩ | ⟨-, rfl, rfl⟩
  · obtain ⟨rightTokens, rfl, hright⟩ := hoperand hread
    exact ⟨leftTokens ++ token :: rightTokens, by simp, .tested hkind hleft hright⟩
  · exact ⟨leftTokens, rfl, .untested hleft⟩

end Expressions

/-- An expression that is read is derived. -/
theorem expression_sound (hlevel : d + room = maxNesting + 1) :
    Sound (expression room) (Derives d .expression) := by
  induction room generalizing d with
  | zero =>
    intro tokens e rest h
    simp [expression, tooDeep] at h -- no room for a level is a fault
  | succ room ih =>
    intro tokens e rest h
    have hle : d ≤ maxNesting := by omega
    have hnested : Sound (expression room) (Derives (d + 1) .expression) := ih (by omega)
    by_cases hstarts : StartsAssignment tokens
    · obtain ⟨token, sign, more, name, rfl, hname, hsign⟩ := hstarts
      obtain ⟨value, hread, rfl⟩ := (expression_assign_ok hname hsign).mp h
      obtain ⟨consumed, rfl, hvalue⟩ := hnested hread
      exact ⟨token :: sign :: consumed, rfl, .assign hle hname hsign hvalue⟩
    · rw [expression_plain hstarts] at h
      obtain ⟨consumed, heq, hderives⟩ := typeTest_sound hnested h
      exact ⟨consumed, heq, .plain hle hderives⟩

/-! ## Statements -/

/-- A parser of statements is sound, and it leaves no `else` that the statement could take. -/
def SoundStatement (parser : Parser Statement) (inFunction : Bool) (d : Nat) : Prop :=
  ∀ ⦃tokens : List Token⦄ ⦃s : Statement⦄ ⦃rest : List Token⦄, parser tokens = .ok s rest →
    ∃ consumed, tokens = consumed ++ rest ∧ DerivesStatement inFunction d consumed s ∧
      (EndsOpen s → NotNext (.keyword .kwElse) rest)

section Statements

variable {inFunction : Bool} {statement : Parser Statement} {tokens rest : List Token}
  {s : Statement}

/-- What is read up to a closing brace is a list of statements. -/
private theorem statementsToBrace_sound (hstatement : SoundStatement statement inFunction d)
    {bound : List Token} {body : List Statement}
    (h : statementsToBrace statement bound tokens = .ok body rest) :
    ∃ (parts : List (List Token × Statement)) (closing : Token),
      (∀ part ∈ parts, DerivesStatement inFunction d part.1 part.2) ∧
        parts.map Prod.snd = body ∧ closing.kind = .symbol .rightBrace ∧
        tokens = (parts.map Prod.fst).flatten ++ closing :: rest := by
  -- The bound allows one round for each statement; the round that meets the brace is the last one.
  induction bound generalizing tokens body with
  | nil => simp [statementsToBrace] at h
  | cons head bound ih =>
    cases tokens with
    | nil => simp [statementsToBrace] at h
    | cons token more =>
      by_cases hkind : token.kind = .symbol .rightBrace
      · rw [statementsToBrace_closing hkind] at h
        cases h
        exact ⟨[], token, by simp, rfl, hkind, rfl⟩
      · obtain ⟨first, mid, others, hfirst, hothers, rfl⟩ := (statementsToBrace_more_ok hkind).mp h
        obtain ⟨consumed, heq, hderives, -⟩ := hstatement hfirst
        obtain ⟨parts, closing, hparts, rfl, hclosing, rfl⟩ := ih hothers
        refine ⟨(consumed, first) :: parts, closing, ?_, rfl, hclosing, by simpa using heq⟩
        exact List.forall_mem_cons.mpr ⟨hderives, hparts⟩

/-- What is read as a block is one of the grammar. -/
private theorem block_sound (hle : d ≤ maxNesting)
    (hstatement : SoundStatement statement inFunction (d + 1)) :
    SoundStatement (block statement) inFunction d := by
  intro tokens s rest h
  obtain ⟨opening, more, body, rfl, hopening, hbody, rfl⟩ := block_ok.mp h
  obtain ⟨parts, closing, hparts, rfl, hclosing, rfl⟩ := statementsToBrace_sound hstatement hbody
  exact ⟨opening :: ((parts.map Prod.fst).flatten ++ [closing]), by simp,
    .block hle hopening hparts hclosing, nofun⟩

/-- What is read as a declaration is one of the grammar, with a value or without. -/
private theorem declaration_sound (hle : d ≤ maxNesting)
    (hexpression : Sound (expression room) (Derives (d + 1) .expression)) :
    SoundStatement (declaration room) inFunction d := by
  intro tokens s rest h
  obtain ⟨start, token, more, name, rfl, hstart, htoken, hmore⟩ := declaration_ok.mp h
  rcases hmore with ⟨sign, inner, semicolon, init, rfl, hsign, hread, hsemi, rfl⟩ |
    ⟨semicolon, rfl, hsemi, rfl⟩
  · obtain ⟨consumed, rfl, hinit⟩ := hexpression hread
    exact ⟨start :: token :: sign :: (consumed ++ [semicolon]), by simp,
      .declareWith hle hstart htoken hsign hinit hsemi, nofun⟩
  · exact ⟨[start, token, semicolon], rfl, .declare hle hstart htoken hsemi, nofun⟩

/-- A condition is an expression in parentheses. -/
private theorem condition_sound {test : Expr}
    (hexpression : Sound (expression room) (Derives (d + 1) .expression))
    (h : condition room tokens = .ok test rest) :
    ∃ opening inner closing, tokens = opening :: (inner ++ closing :: rest) ∧
      opening.kind = .symbol .leftParen ∧ Derives (d + 1) .expression inner test ∧
      closing.kind = .symbol .rightParen := by
  obtain ⟨opening, more, closing, rfl, hopening, hread, hclosing⟩ := condition_ok.mp h
  obtain ⟨inner, rfl, htest⟩ := hexpression hread
  exact ⟨opening, inner, closing, rfl, hopening, htest, hclosing⟩

/-- What is read as an `if` is one of the grammar, and its `else` belongs to it. -/
private theorem branch_sound (hle : d ≤ maxNesting)
    (hexpression : Sound (expression room) (Derives (d + 1) .expression))
    (hstatement : SoundStatement statement inFunction (d + 1)) :
    SoundStatement (branch room statement) inFunction d := by
  intro tokens s rest h
  obtain ⟨start, more, test, body, yes, mid, rfl, hstart, hcondition, hread, hmore⟩ :=
    branch_ok.mp h
  obtain ⟨opening, inner, closing, rfl, hopening, htest, hclosing⟩ :=
    condition_sound hexpression hcondition
  obtain ⟨yesTokens, rfl, hyes, hopen⟩ := hstatement hread
  rcases hmore with ⟨otherwise, more, no, rfl, hotherwise, hread, rfl⟩ | ⟨hnot, rfl, rfl⟩
  · -- The first statement left the `else`, so it could not take it.
    have hclosed : ¬ EndsOpen yes := fun hends => (NotNext_cons _ _ _).mp (hopen hends) hotherwise
    obtain ⟨noTokens, rfl, hno, hopen⟩ := hstatement hread
    refine ⟨start :: opening :: (inner ++ closing :: (yesTokens ++ otherwise :: noTokens)),
      by simp, .branchElse hle hstart hopening htest hclosing hyes hclosed hotherwise hno, ?_⟩
    intro h
    rcases h with _ | hends
    exact hopen hends
  · exact ⟨start :: opening :: (inner ++ closing :: yesTokens), by simp,
      .branch hle hstart hopening htest hclosing hyes, fun _ => hnot⟩

/-- What is read as a `while` is one of the grammar. It ends open if its body does. -/
private theorem loop_sound (hle : d ≤ maxNesting)
    (hexpression : Sound (expression room) (Derives (d + 1) .expression))
    (hstatement : SoundStatement statement inFunction (d + 1)) :
    SoundStatement (loop room statement) inFunction d := by
  intro tokens s rest h
  obtain ⟨start, more, test, mid, body, rfl, hstart, hcondition, hread, rfl⟩ := loop_ok.mp h
  obtain ⟨opening, inner, closing, rfl, hopening, htest, hclosing⟩ :=
    condition_sound hexpression hcondition
  obtain ⟨bodyTokens, rfl, hbody, hopen⟩ := hstatement hread
  refine ⟨start :: opening :: (inner ++ closing :: bodyTokens), by simp,
    .loop hle hstart hopening htest hclosing hbody, ?_⟩
  intro h
  rcases h with _ | _ | hends
  exact hopen hends

/-- The cases that are read, with the default case of those before them in front. -/
private theorem cases_sound (hstatement : SoundStatement statement inFunction d)
    {bound : List Token} {default found : Option Statement} {typed : List (Kind × Statement)}
    (h : cases statement bound default tokens = .ok (typed, found) rest) :
    ∃ (all : List Case) (closing : Token), (∀ c ∈ all, c.head.kind = c.headKind) ∧
      (∀ c ∈ all, c.colon.kind = .symbol .colon) ∧
      (∀ c ∈ all, DerivesStatement inFunction d c.tokens c.body) ∧
      (default.toList ++ defaultBodies all).length ≤ 1 ∧
      closing.kind = .symbol .rightBrace ∧ typedCases all = typed ∧
      (default.toList ++ defaultBodies all).head? = found ∧
      tokens = (all.map Case.allTokens).flatten ++ closing :: rest := by
  -- Only a type name adds to the result of the rest; a default case is handed on to it.
  induction bound generalizing tokens default typed with
  | nil => simp [cases] at h
  | cons head bound ih =>
    obtain ⟨token, more, rfl, hkind | hkind | ⟨kind, hkind⟩⟩ := cases_first h
    · rw [cases_closing hkind] at h
      cases h
      refine ⟨[], token, by simp, by simp, by simp, ?_, hkind, rfl, ?_, rfl⟩
      · cases found <;> simp [defaultBodies]
      · cases found <;> simp [defaultBodies]
    · obtain ⟨rfl, body, mid, hcase, hmore⟩ := (cases_default_ok hkind).mp h
      obtain ⟨colon, inner, rfl, hcolon, hread⟩ := caseBody_ok.mp hcase
      obtain ⟨consumed, rfl, hbody, -⟩ := hstatement hread
      obtain ⟨all, closing, hheads, hcolons, hbodies, hlength, hclosing, rfl, rfl, rfl⟩ := ih hmore
      refine ⟨⟨none, token, colon, consumed, body⟩ :: all, closing,
        List.forall_mem_cons.mpr ⟨hkind, hheads⟩, List.forall_mem_cons.mpr ⟨hcolon, hcolons⟩,
        List.forall_mem_cons.mpr ⟨hbody, hbodies⟩, hlength, hclosing, rfl, rfl, ?_⟩
      simp [Case.allTokens]
    · obtain ⟨body, mid, others, hcase, hmore, rfl⟩ := (cases_typed_ok hkind).mp h
      obtain ⟨colon, inner, rfl, hcolon, hread⟩ := caseBody_ok.mp hcase
      obtain ⟨consumed, rfl, hbody, -⟩ := hstatement hread
      obtain ⟨all, closing, hheads, hcolons, hbodies, hlength, hclosing, rfl, rfl, rfl⟩ := ih hmore
      refine ⟨⟨some kind, token, colon, consumed, body⟩ :: all, closing,
        List.forall_mem_cons.mpr ⟨hkind, hheads⟩, List.forall_mem_cons.mpr ⟨hcolon, hcolons⟩,
        List.forall_mem_cons.mpr ⟨hbody, hbodies⟩, hlength, hclosing, rfl, rfl, ?_⟩
      simp [Case.allTokens]

/-- What is read as a `match` is one of the grammar, with one default case at most. -/
private theorem select_sound (hle : d ≤ maxNesting)
    (hexpression : Sound (expression room) (Derives (d + 1) .expression))
    (hstatement : SoundStatement statement inFunction (d + 1)) :
    SoundStatement (select room statement) inFunction d := by
  intro tokens s rest h
  obtain ⟨start, more, subject, left, mid, typed, default, rfl, hstart, hcondition, hleft, hcases,
    rfl⟩ := select_ok.mp h
  obtain ⟨opening, inner, closing, rfl, hopening, hsubject, hclosing⟩ :=
    condition_sound hexpression hcondition
  obtain ⟨all, right, hheads, hcolons, hbodies, hlength, hright, rfl, rfl, rfl⟩ :=
    cases_sound hstatement hcases
  exact ⟨start :: opening :: (inner ++ closing :: left ::
      ((all.map Case.allTokens).flatten ++ [right])), by simp,
    .select hle hstart hopening hsubject hclosing hleft hheads hcolons hbodies hlength hright,
    nofun⟩

/-- No name is repeated if all are different from each other and from those that were seen. -/
theorem firstRepeated_eq_none_iff (seen names : List String) :
    firstRepeated seen names = none ↔ names.Nodup ∧ ∀ name ∈ names, name ∉ seen := by
  induction names generalizing seen with
  | nil => simp [firstRepeated]
  | cons name rest ih =>
    by_cases hseen : name ∈ seen
    · simp [firstRepeated, hseen]
    · rw [firstRepeated, if_neg hseen, ih, List.nodup_cons]
      grind

/-- A parameter is a type name and a name. -/
private theorem parameter_sound :
    Sound parameter fun consumed p => ∃ type token, consumed = [type, token] ∧
      type.kind = .literal (.type p.kind) ∧ token.kind = .identifier p.name := by
  intro tokens p rest h
  obtain ⟨type, token, rfl, htype, htoken⟩ := parameter_ok.mp h
  exact ⟨[type, token], rfl, type, token, rfl, htype, htoken⟩

/-- The two tokens of every parameter, side by side with it. -/
private theorem parameters_of_parts {parts : List (List Token × Parameter)}
    (h : ∀ part ∈ parts, ∃ type token, part.1 = [type, token] ∧
      type.kind = .literal (.type part.2.kind) ∧ token.kind = .identifier part.2.name) :
    ∃ parameters : List (Token × Token × Parameter),
      (∀ p ∈ parameters, p.1.kind = .literal (.type p.2.2.kind) ∧
        p.2.1.kind = .identifier p.2.2.name) ∧
      parts = parameters.map fun p => ([p.1, p.2.1], p.2.2) := by
  -- Each part has two tokens, which are collected with the parameter.
  induction parts with
  | nil => exact ⟨[], by simp, rfl⟩
  | cons part parts ih =>
    rw [List.forall_mem_cons] at h
    obtain ⟨⟨type, token, heq, htype, htoken⟩, hparts⟩ := h
    obtain ⟨parameters, hparameters, rfl⟩ := ih hparts
    refine ⟨(type, token, part.2) :: parameters, ?_, by simp [← heq]⟩
    exact List.forall_mem_cons.mpr ⟨⟨htype, htoken⟩, hparameters⟩

/-- What is read as the declaration of a function is one of the grammar, with distinct parameters
    and outside of other functions. -/
private theorem function_sound (hle : d ≤ maxNesting)
    (hbody : SoundStatement statement true (d + 1)) :
    SoundStatement (function inFunction statement) inFunction d := by
  intro tokens s rest h
  obtain ⟨rfl, start, token, opening, more, name, params, colon, type, left, inner, returnKind,
    body, rfl, hstart, htoken, hopening, hparams, hrepeated, hcolon, htype, hleft, hread, rfl⟩ :=
    function_ok.mp h
  obtain ⟨parts, paramTokens, closing, hparts, rfl, hseparated, hclosing, rfl⟩ :=
    listUntil_sound (by decide) parameter_sound hparams
  obtain ⟨parameters, hparameters, rfl⟩ := parameters_of_parts hparts
  obtain ⟨statements, right, hstatements, rfl, hright, rfl⟩ := statementsToBrace_sound hbody hread
  -- The check that found no repeated name is what makes the parameters distinct.
  have hnodup : (parameters.map fun p => p.2.2.name).Nodup := by
    have := ((firstRepeated_eq_none_iff _ _).mp hrepeated).1
    simpa [Function.comp_def] using this
  refine ⟨start :: token :: opening :: (paramTokens ++ closing :: colon :: type :: left ::
      ((statements.map Prod.fst).flatten ++ [right])), by simp, ?_, nofun⟩
  have hseparated' : Separated (parameters.map fun p => [p.1, p.2.1]) paramTokens := by
    simpa [Function.comp_def] using hseparated
  simpa [Function.comp_def] using DerivesStatement.function hle hstart htoken hopening hparameters
    hseparated' hnodup hclosing hcolon htype hleft hstatements hright

/-- What is read as a `return` is one of the grammar, with a value or without. -/
private theorem ret_sound (hle : d ≤ maxNesting)
    (hexpression : Sound (expression room) (Derives (d + 1) .expression)) :
    SoundStatement (ret room) inFunction d := by
  intro tokens s rest h
  obtain ⟨start, more, rfl, hstart, hmore⟩ := ret_ok.mp h
  rcases hmore with ⟨semicolon, rfl, hsemi, rfl⟩ | ⟨-, value, semicolon, hread, hsemi, rfl⟩
  · exact ⟨[start, semicolon], rfl, .ret hle hstart hsemi, nofun⟩
  · obtain ⟨consumed, rfl, hvalue⟩ := hexpression hread
    exact ⟨start :: (consumed ++ [semicolon]), by simp, .retWith hle hstart hvalue hsemi, nofun⟩

/-- What is read as an expression with a semicolon behind it is a statement of the grammar. -/
private theorem expressionStatement_sound {first : Token} {more : List Token} (hle : d ≤ maxNesting)
    (hexpression : Sound (expression room) (Derives (d + 1) .expression))
    (h : expressionStatement room first.line (first :: more) = .ok s rest) :
    ∃ consumed, first :: more = consumed ++ rest ∧ DerivesStatement inFunction d consumed s ∧
      (EndsOpen s → NotNext (.keyword .kwElse) rest) := by
  obtain ⟨value, semicolon, hread, hsemi, rfl⟩ := expressionStatement_ok.mp h
  obtain ⟨consumed, heq, hvalue⟩ := hexpression hread
  -- The line of the statement is that of the first token of its expression.
  obtain ⟨_, inner, rfl, -⟩ := hvalue.first
  cases heq
  exact ⟨first :: (inner ++ [semicolon]), by simp, .expression hle hvalue hsemi, nofun⟩

end Statements

/-- A statement that is read is derived, and no `else` that it could take is left. -/
theorem statement_sound (inFunction : Bool) (hlevel : d + room = maxNesting + 1) :
    SoundStatement (statement room inFunction) inFunction d := by
  induction room generalizing d inFunction with
  | zero =>
    intro tokens s rest h
    cases tokens <;> simp [statement, tooDeep] at h
  | succ room ih =>
    intro tokens s rest h
    have hle : d ≤ maxNesting := by omega
    -- The expressions and statements inside have one room less and are one level further in.
    have hnested : (d + 1) + room = maxNesting + 1 := by omega
    have hexpression : Sound (expression room) (Derives (d + 1) .expression) :=
      expression_sound hnested
    cases tokens with
    | nil => simp [statement] at h
    | cons token more =>
      rw [statement_cons] at h
      split at h
      · exact block_sound hle (ih inFunction hnested) h
      · exact declaration_sound hle hexpression h
      · exact branch_sound hle hexpression (ih inFunction hnested) h
      · exact loop_sound hle hexpression (ih inFunction hnested) h
      · exact select_sound hle hexpression (ih inFunction hnested) h
      · exact function_sound hle (ih true hnested) h
      · exact ret_sound hle hexpression h
      · exact expressionStatement_sound hle hexpression h

/-! ## Programs -/

/-- What is read up to the end of the tokens is a program of the grammar. -/
private theorem statementsToEnd_sound {bound tokens rest : List Token} {p : Program}
    (hbound : tokens.length ≤ bound.length) (h : statementsToEnd bound tokens = .ok p rest) :
    DerivesProgram tokens p := by
  induction bound generalizing tokens p with
  | nil =>
    -- No rounds are left only where no tokens are left.
    obtain ⟨rfl, -⟩ := pure_ok.mp h
    exact ⟨[], by simp, by simpa using hbound, rfl⟩
  | cons head bound ih =>
    cases tokens with
    | nil =>
      simp only [statementsToEnd, bind_peek, List.head?_nil, pure_ok] at h
      exact ⟨[], by simp, rfl, h.1.symm⟩
    | cons token more =>
      obtain ⟨first, mid, others, hread, hmore, rfl⟩ := statementsToEnd_cons_ok.mp h
      obtain ⟨consumed, heq, hfirst, -⟩ := statement_sound (d := 1) false (by decide) hread
      -- A statement has a token, so the rest has one round less to go.
      obtain ⟨_, inner, rfl, -⟩ := hfirst.first
      cases heq
      have hlength : mid.length ≤ bound.length := by simp at hbound; omega
      obtain ⟨parts, hparts, rfl, rfl⟩ := ih hlength hmore
      refine ⟨(token :: inner, first) :: parts, ?_, by simp, rfl⟩
      exact List.forall_mem_cons.mpr ⟨hfirst, hparts⟩

/-- A program that is read is derived, from all the tokens. -/
theorem program_sound {tokens rest : List Token} {p : Program}
    (h : program tokens = .ok p rest) : DerivesProgram tokens p :=
  statementsToEnd_sound (Nat.le_refl _) h

end Script.Grammar
