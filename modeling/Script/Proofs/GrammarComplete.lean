import Script.Proofs.GrammarSound

/-!
# Whatever is derived is read

Tokens that the grammar derives are read back as the tree that they stand for. Behind an expression
there has to be a token that ends it, since a chain of operators takes all that it can. A statement
ends by itself, except that one with an open `if` at its end takes an `else` that follows.

## Key results

- `expression_complete`: an expression is read up to the token that ends it
- `statement_complete`: a statement is read, whatever follows that it could not take
- `program_reads_iff_derives`: a program is read if and only if the grammar derives it
-/

namespace Script.Grammar

open Script.Parser

variable {α : Type} {d room : Nat}

/-! ## Lists -/

/-- Behind the first item of a list, the others are read back. -/
private theorem listRest_complete {item : Parser α} {closing : Symbol} (hclosing : closing ≠ .comma)
    {first : List Token} {parts : List (List Token × α)} {tokens : List Token} {close : Token}
    (hitems : ∀ part ∈ parts, ∀ sign more,
      sign.kind = .symbol .comma ∨ sign.kind = .symbol closing →
        item (part.1 ++ sign :: more) = .ok part.2 (sign :: more))
    (hseparated : Separated (first :: parts.map Prod.fst) tokens)
    (hclose : close.kind = .symbol closing) (rest : List Token) :
    ∃ sign more, tokens ++ close :: rest = first ++ sign :: more ∧
      (sign.kind = .symbol .comma ∨ sign.kind = .symbol closing) ∧
      ∀ bound : List Token, (sign :: more).length ≤ bound.length →
        listRest item closing bound (sign :: more) = .ok (parts.map Prod.snd) rest := by
  induction parts generalizing first tokens with
  | nil =>
    cases hseparated
    refine ⟨close, rest, rfl, .inr hclose, fun bound hbound => ?_⟩
    cases bound with
    | nil => simp at hbound
    | cons head bound => exact (listRest_cons_ok hclosing).mpr (.inr ⟨close, rfl, hclose, rfl⟩)
  | cons part parts ih =>
    rw [List.forall_mem_cons] at hitems
    cases hseparated with
    | more hcomma hmore =>
      rename_i tokens comma
      -- What follows the next item is known before the item is read, and ends it.
      obtain ⟨sign, more, heq, hsign, hrest⟩ := ih hitems.2 hmore
      refine ⟨comma, tokens ++ close :: rest, by simp, .inl hcomma, fun bound hbound => ?_⟩
      cases bound with
      | nil => simp at hbound
      | cons head bound =>
        rw [heq] at hbound ⊢
        have hlength : (sign :: more).length ≤ bound.length := by simp at hbound ⊢; omega
        exact (listRest_cons_ok hclosing).mpr (.inl ⟨comma, _, part.2, sign :: more,
          parts.map Prod.snd, rfl, hcomma, hitems.1 sign more hsign, hrest bound hlength, rfl⟩)

/-- A list is read back if its items are, in front of a comma and of the closing sign, and none of
    them starts with the closing sign. -/
private theorem listUntil_complete {item : Parser α} {closing : Symbol}
    (hclosing : closing ≠ .comma)
    {parts : List (List Token × α)} {tokens : List Token} {close : Token}
    (hitems : ∀ part ∈ parts, ∀ sign more,
      sign.kind = .symbol .comma ∨ sign.kind = .symbol closing →
        item (part.1 ++ sign :: more) = .ok part.2 (sign :: more))
    (hfirst : ∀ part ∈ parts, ∃ token more, part.1 = token :: more ∧ token.kind ≠ .symbol closing)
    (hseparated : Separated (parts.map Prod.fst) tokens)
    (hclose : close.kind = .symbol closing) (rest : List Token) :
    listUntil item closing (tokens ++ close :: rest) = .ok (parts.map Prod.snd) rest := by
  rw [listUntil_ok]
  -- A list without items is its closing sign; otherwise its first item does not start with that
  -- sign.
  cases parts with
  | nil =>
    cases hseparated
    exact .inl ⟨close, rfl, hclose, rfl⟩
  | cons part parts =>
    rw [List.forall_mem_cons] at hitems hfirst
    obtain ⟨sign, more, heq, hsign, hrest⟩ :=
      listRest_complete hclosing hitems.2 hseparated hclose rest
    obtain ⟨token, inner, hpart, hkind⟩ := hfirst.1
    refine .inr ⟨?_, part.2, sign :: more, parts.map Prod.snd, ?_, hrest _ (Nat.le_refl _), rfl⟩
    · rw [heq, hpart]
      exact (NotNext_cons _ _ _).mpr hkind
    · rw [heq]
      exact hitems.1 sign more hsign

/-! ## Expressions -/

/-- The kinds of tokens behind an expression. -/
inductive EndsExpression : TokenKind → Prop where
  | semicolon : EndsExpression (.symbol .semicolon)
  | comma : EndsExpression (.symbol .comma)
  | parenthesis : EndsExpression (.symbol .rightParen)

/-- What may stand behind a chain of level `n`: no parenthesis, which would make a name a call, and
    no operator of its rows. -/
structure Stops (n : Nat) (rest : List Token) : Prop where
  notCalled : NotNext (.symbol .leftParen) rest
  looser : ∀ token ∈ rest.head?, ∀ op, BinaryOp.ofToken? token.kind = some op → op.tightness ≤ 8 - n

/-- An expression is read back, up to a token that ends it. -/
def CompleteExpression (parser : Parser Expr) (d : Nat) : Prop :=
  ∀ ⦃tokens : List Token⦄ ⦃e : Expr⦄, Derives d .expression tokens e →
    ∀ (closing : Token) (rest : List Token), EndsExpression closing.kind →
      parser (tokens ++ closing :: rest) = .ok e (closing :: rest)

section Expressions

variable {nested : Parser Expr} {tokens rest : List Token} {e : Expr}

/-- What ends the operations of a level ends those of the tighter levels too. -/
theorem Stops.of_succ {n : Nat} (h : Stops (n + 1) rest) : Stops n rest :=
  ⟨h.notCalled, fun token htoken op hop => by have := h.looser token htoken op hop; omega⟩

/-- Where the operations of a level end, there is no operator of the level. -/
private theorem Stops.noOperator {n : Nat} (hn : n < 8) (h : Stops (n + 1) rest) :
    NoOperator (8 - n) rest := by
  intro token htoken op hop
  have := h.looser token htoken op hop
  omega

/-- The end of the tokens stops every chain. -/
theorem Stops.nil {n : Nat} : Stops n [] :=
  ⟨NotNext_nil _, by simp⟩

/-- An operator that is not tighter than a chain stops it. -/
private theorem Stops.of_operator {n : Nat} {token : Token} {op : BinaryOp}
    (hop : BinaryOp.ofToken? token.kind = some op) (htight : op.tightness ≤ 8 - n) :
    Stops n (token :: rest) := by
  refine ⟨(NotNext_cons _ _ _).mpr fun hkind => ?_, ?_⟩
  · rw [hkind] at hop
    cases hop
  · rintro _ ⟨⟩ op' hop'
    cases hop.symm.trans hop'
    exact htight

/-- A token that ends expressions stops every chain. -/
theorem EndsExpression.stops {n : Nat} {closing : Token} (h : EndsExpression closing.kind) :
    Stops n (closing :: rest) := by
  have hkind : closing.kind ≠ .symbol .leftParen ∧ BinaryOp.ofToken? closing.kind = none := by
    generalize closing.kind = kind at h
    cases h <;> exact ⟨by simp, rfl⟩
  refine ⟨(NotNext_cons _ _ _).mpr hkind.1, ?_⟩
  rintro _ ⟨⟩ op hop
  cases hkind.2.symm.trans hop

/-- What ends an expression is no `is`. -/
theorem EndsExpression.not_is {closing : Token} (h : EndsExpression closing.kind) :
    NotNext (.keyword .kwIs) (closing :: rest) := by
  refine (NotNext_cons _ _ _).mpr fun hkind => ?_
  rw [hkind] at h
  cases h

/-- Every factor of the grammar is read, if no call is read in its place. -/
private theorem factor_complete (hnested : CompleteExpression nested (d + 1))
    (h : Derives d .factor tokens e) (hrest : NotNext (.symbol .leftParen) rest) :
    factor nested (tokens ++ rest) = .ok e rest := by
  cases h with
  | literal hkind => exact factor_literal hkind
  | identifier hkind => exact (factor_identifier_ok hkind).mpr (.inr ⟨hrest, rfl, rfl⟩)
  | call hkind hopening harguments hseparated hclosing =>
    rename_i token opening closing name arguments inner
    have hread : listUntil nested .rightParen (inner ++ closing :: rest) =
        .ok (arguments.map Prod.snd) rest := by
      -- An argument is an expression, and a comma or the closing parenthesis ends it.
      refine listUntil_complete (by decide) ?_ ?_ hseparated hclosing rest
      · intro argument hmem sign more hsign
        refine hnested (harguments argument hmem) sign more ?_
        rcases hsign with hsign | hsign
        · exact hsign ▸ .comma
        · exact hsign ▸ .parenthesis
      · intro argument hmem
        obtain ⟨token, more, heq, hstarts⟩ := (harguments argument hmem).first
        refine ⟨token, more, heq, fun hkind => ?_⟩
        rw [hkind] at hstarts
        cases hstarts
    refine (factor_identifier_ok hkind).mpr (.inl ⟨opening, inner ++ closing :: rest, _, ?_,
      hopening, hread, rfl⟩)
    simp
  | parentheses hopening hinner hclosing =>
    rename_i opening closing inner
    rw [List.cons_append, List.append_assoc]
    exact (factor_parentheses_ok hopening).mpr
      ⟨closing, hnested hinner closing rest (hclosing ▸ .parenthesis), hclosing⟩

/-- Every unary phrase of the grammar is read. -/
private theorem unary_complete (hnested : CompleteExpression nested (d + 1))
    (h : Derives d .unary tokens e) (hrest : NotNext (.symbol .leftParen) rest) :
    unary nested (tokens ++ rest) = .ok e rest := by
  cases h with
  | bare hfactor =>
    obtain ⟨token, more, rfl, -, hop⟩ := hfactor.factor_first
    rw [List.cons_append, unary_bare hop]
    exact factor_complete hnested hfactor hrest
  | unary hmem hoperand hfactor =>
    rename_i token first op more operand
    have hop : UnaryOp.ofToken? token.kind = some op := (mem_unaryRow_iff _ _).mp hmem
    exact (unary_operator_ok hop).mpr ⟨first, more ++ rest, operand, rfl,
      (operand_iff _ _).mp hoperand, factor_complete hnested hfactor hrest, rfl⟩

/-- What is read of a chain, up to where its loop has come: the loop goes on from there. -/
private theorem level_succ_complete {n : Nat}
    (hoperand : ∀ {tokens rest : List Token} {e : Expr}, Derives d (.chain n) tokens e →
      Stops n rest → level nested n (tokens ++ rest) = .ok e rest)
    (h : Derives d (.chain (n + 1)) tokens e) (hrest : Stops n rest) :
    ∃ bound : List Token, rest.length ≤ bound.length ∧
      level nested (n + 1) (tokens ++ rest) =
        operations (8 - n) (level nested n) bound e rest := by
  -- The chain grows on the right, so the induction follows its left operands.
  generalize hphrase : Phrase.chain (n + 1) = phrase at h
  induction h generalizing rest with
  | single hchain =>
    cases hphrase
    refine ⟨rest, Nat.le_refl _, ?_⟩
    rw [level, bind_of_ok (hoperand hchain hrest), bind_remaining]
  | operation hrow hmem hleft hright ihleft =>
    cases hphrase
    rename_i row token op leftTokens rightTokens left right _
    obtain ⟨-, hop, htight⟩ := (mem_operatorRows_iff n token.kind op).mp ⟨row, hrow, hmem⟩
    -- The operator stops the last operand on its left, which has tighter operators only.
    have hstops : Stops n (token :: (rightTokens ++ rest)) := .of_operator hop (by omega)
    obtain ⟨bound, hlength, hread⟩ := ihleft hoperand hstops rfl
    rw [List.append_assoc, List.cons_append, hread]
    -- The left operand has left a round for the operator.
    cases bound with
    | nil => simp at hlength
    | cons head bound =>
      refine ⟨bound, by simp at hlength; omega, ?_⟩
      rw [operations_operator hop htight, bind_of_ok (hoperand hright hrest)]
  | _ => cases hphrase

/-- Every chain of operations is read up to where its level stops. -/
private theorem level_complete (hnested : CompleteExpression nested (d + 1)) {n : Nat} (hn : n ≤ 8)
    (h : Derives d (.chain n) tokens e) (hrest : Stops n rest) :
    level nested n (tokens ++ rest) = .ok e rest := by
  induction n generalizing tokens rest e with
  | zero =>
    cases h with
    | operand hunary => exact unary_complete hnested hunary hrest.notCalled
  | succ n ih =>
    -- Behind the chain no operator of the level stands, so that the loop ends there.
    obtain ⟨bound, -, hread⟩ := level_succ_complete (ih (by omega)) h hrest.of_succ
    rw [hread, operations_end (hrest.noOperator (by omega))]

/-- A type test is read back in front of everything that no operator of its chains takes, and that
    does not start a second test. -/
theorem typeTest_complete (hnested : CompleteExpression nested (d + 1))
    (h : Derives d .typeTest tokens e) (hstops : Stops 8 rest)
    (hrest : NotNext (.keyword .kwIs) rest) : typeTest nested (tokens ++ rest) = .ok e rest := by
  rw [typeTest_ok]
  cases h with
  | untested hchain =>
    exact ⟨e, rest, level_complete hnested (by omega) hchain hstops, .inr ⟨hrest, rfl, rfl⟩⟩
  | tested hkind hleft hright =>
    rename_i token leftTokens rightTokens left right
    have hop : BinaryOp.ofToken? token.kind = some .is := by rw [hkind]; rfl
    -- On the left the operations end at the `is`, which no level has as its operator.
    have hbefore : Stops 8 (token :: (rightTokens ++ rest)) := .of_operator hop (by decide)
    refine ⟨left, token :: (rightTokens ++ rest), ?_, .inl ?_⟩
    · rw [List.append_assoc]
      exact level_complete hnested (by omega) hleft hbefore
    · exact ⟨token, _, right, rfl, hkind,
        level_complete hnested (by omega) hright hstops, rfl⟩

end Expressions

/-- Only an assignment starts with a name and an equals sign. -/
private theorem Derives.not_startsAssignment {phrase : Phrase} {tokens rest : List Token} {e : Expr}
    (h : Derives d phrase tokens e) (hphrase : phrase ≠ .expression)
    (hrest : NotNext (.symbol .assign) rest) : ¬ StartsAssignment (tokens ++ rest) := by
  induction h generalizing rest with
  | literal hkind | parentheses hkind =>
    intro h
    obtain ⟨_, _, _, _, heq, hname, -⟩ := h
    obtain ⟨rfl, -⟩ := List.cons.inj heq
    cases hkind.symm.trans hname
  | identifier hkind =>
    intro h
    obtain ⟨_, _, _, _, heq, -, hsign⟩ := h
    cases heq
    exact (NotNext_cons _ _ _).mp hrest hsign
  | call hkind hopening =>
    intro h
    obtain ⟨_, _, _, _, heq, -, hsign⟩ := h
    cases heq
    cases hopening.symm.trans hsign
  | unary hmem =>
    intro h
    obtain ⟨_, _, _, _, heq, hname, -⟩ := h
    cases heq
    rw [mem_unaryRow_iff, hname] at hmem
    cases hmem
  | operation hrow hmem _ _ ihleft =>
    -- If the left operand is a name alone, an operator follows it.
    have hop := ((mem_operatorRows_iff _ _ _).mp ⟨_, hrow, hmem⟩).2.1
    rw [List.append_assoc]
    refine ihleft (by simp) ((NotNext_cons _ _ _).mpr fun hkind => ?_)
    rw [hkind] at hop
    cases hop
  | tested hkind _ _ ihleft =>
    rw [List.append_assoc]
    exact ihleft (by simp) ((NotNext_cons _ _ _).mpr (by simp [hkind]))
  | bare _ ih | operand _ ih | single _ ih | untested _ ih => exact ih (by simp) hrest
  | plain | assign => exact absurd rfl hphrase

/-- An expression is read back, up to a token that ends it. -/
theorem expression_complete (hlevel : d + room = maxNesting + 1) :
    CompleteExpression (expression room) d := by
  induction room generalizing d with
  | zero =>
    intro tokens e h
    cases h <;> omega -- beyond the last level nothing is derived
  | succ room ih =>
    intro tokens e h closing rest hclosing
    have hnested : CompleteExpression (expression room) (d + 1) := ih (by omega)
    cases h with
    | plain _ htest =>
      have hassign : NotNext (.symbol .assign) (closing :: rest) := by
        refine (NotNext_cons _ _ _).mpr fun hkind => ?_
        rw [hkind] at hclosing
        cases hclosing
      rw [expression_plain (htest.not_startsAssignment (by simp) hassign)]
      exact typeTest_complete hnested htest hclosing.stops hclosing.not_is
    | assign _ hname hsign hvalue =>
      exact (expression_assign_ok hname hsign).mpr
        ⟨_, hnested hvalue closing rest hclosing, rfl⟩

/-! ## Statements -/

/-- A statement is read back in front of everything that it could not take. -/
def CompleteStatement (parser : Parser Statement) (inFunction : Bool) (d : Nat) : Prop :=
  ∀ ⦃tokens : List Token⦄ ⦃s : Statement⦄, DerivesStatement inFunction d tokens s →
    ∀ rest : List Token, (EndsOpen s → NotNext (.keyword .kwElse) rest) →
      parser (tokens ++ rest) = .ok s rest

section Statements

variable {inFunction : Bool} {statement : Parser Statement} {rest : List Token}

/-- No statement starts with `else`. -/
private theorem not_else_of_parts {parts : List (List Token × Statement)}
    (hparts : ∀ part ∈ parts, DerivesStatement inFunction d part.1 part.2)
    (hrest : NotNext (.keyword .kwElse) rest) :
    NotNext (.keyword .kwElse) ((parts.map Prod.fst).flatten ++ rest) := by
  cases parts with
  | nil => exact hrest
  | cons part parts =>
    obtain ⟨token, more, heq, -, hkind⟩ := (hparts part List.mem_cons_self).first
    simpa [heq] using hkind

/-- Statements and the closing brace behind them are read as the body that they are. -/
private theorem statementsToBrace_complete (hstatement : CompleteStatement statement inFunction d)
    {parts : List (List Token × Statement)} {closing : Token} {bound : List Token}
    (hparts : ∀ part ∈ parts, DerivesStatement inFunction d part.1 part.2)
    (hclosing : closing.kind = .symbol .rightBrace)
    (hbound : ((parts.map Prod.fst).flatten ++ closing :: rest).length ≤ bound.length) :
    statementsToBrace statement bound ((parts.map Prod.fst).flatten ++ closing :: rest) =
      .ok (parts.map Prod.snd) rest := by
  have helse : NotNext (.keyword .kwElse) (closing :: rest) := by simp [hclosing]
  induction parts generalizing bound with
  | nil =>
    cases bound with
    | nil => simp at hbound
    | cons head bound => exact statementsToBrace_closing hclosing
  | cons part parts ih =>
    rw [List.forall_mem_cons] at hparts
    -- Neither the next statement nor the closing brace is an `else`.
    have hread := hstatement hparts.1 ((parts.map Prod.fst).flatten ++ closing :: rest)
      fun _ => not_else_of_parts hparts.2 helse
    obtain ⟨token, more, heq, hkind, -⟩ := hparts.1.first
    cases bound with
    | nil => simp at hbound
    | cons head bound =>
      have hlength : ((parts.map Prod.fst).flatten ++ closing :: rest).length ≤ bound.length := by
        simp [heq] at hbound ⊢
        omega
      rw [List.map_cons, List.flatten_cons, List.append_assoc, heq, List.cons_append]
      rw [heq, List.cons_append] at hread
      exact (statementsToBrace_more_ok hkind).mpr
        ⟨part.2, _, parts.map Prod.snd, hread, ih hparts.2 hlength, rfl⟩

/-- A condition in parentheses is read, since the closing parenthesis ends the expression. -/
private theorem condition_complete (hexpression : CompleteExpression (expression room) (d + 1))
    {opening closing : Token} {inner : List Token} {test : Expr}
    (hopening : opening.kind = .symbol .leftParen) (htest : Derives (d + 1) .expression inner test)
    (hclosing : closing.kind = .symbol .rightParen) :
    condition room (opening :: (inner ++ closing :: rest)) = .ok test rest :=
  condition_ok.mpr ⟨opening, _, closing, rfl, hopening,
    hexpression htest closing rest (hclosing ▸ .parenthesis), hclosing⟩

/-- No case starts with `else`. -/
private theorem not_else_of_cases {all : List Case} (hheads : ∀ c ∈ all, c.head.kind = c.headKind)
    (hrest : NotNext (.keyword .kwElse) rest) :
    NotNext (.keyword .kwElse) ((all.map Case.allTokens).flatten ++ rest) := by
  cases all with
  | nil => exact hrest
  | cons c all =>
    have hhead : c.head.kind = c.headKind := hheads c List.mem_cons_self
    have hkind : c.headKind ≠ .keyword .kwElse := by
      unfold Case.headKind
      split <;> simp
    simpa [Case.allTokens, hhead] using hkind

/-- The cases of a `match` are read to the closing brace, with at most one default among them. -/
private theorem cases_complete (hstatement : CompleteStatement statement inFunction d)
    {all : List Case} {default : Option Statement} {closing : Token} {bound : List Token}
    (hheads : ∀ c ∈ all, c.head.kind = c.headKind)
    (hcolons : ∀ c ∈ all, c.colon.kind = .symbol .colon)
    (hbodies : ∀ c ∈ all, DerivesStatement inFunction d c.tokens c.body)
    (hlength : (default.toList ++ defaultBodies all).length ≤ 1)
    (hclosing : closing.kind = .symbol .rightBrace)
    (hbound : ((all.map Case.allTokens).flatten ++ closing :: rest).length ≤ bound.length) :
    cases statement bound default ((all.map Case.allTokens).flatten ++ closing :: rest) =
      .ok (typedCases all, (default.toList ++ defaultBodies all).head?) rest := by
  have helse : NotNext (.keyword .kwElse) (closing :: rest) := by simp [hclosing]
  induction all generalizing bound default with
  | nil =>
    cases bound with
    | nil => simp at hbound
    | cons head bound =>
      have hdefault : (default.toList ++ defaultBodies []).head? = default := by
        cases default <;> simp [defaultBodies]
      rw [hdefault]
      exact cases_closing hclosing
  | cons c all ih =>
    rw [List.forall_mem_cons] at hheads hcolons hbodies
    -- Neither the next case nor the closing brace is an `else`.
    have hread := hstatement hbodies.1 ((all.map Case.allTokens).flatten ++ closing :: rest)
      fun _ => not_else_of_cases hheads.2 helse
    have hcase := caseBody_ok.mpr ⟨c.colon, _, rfl, hcolons.1, hread⟩
    rw [List.map_cons, List.flatten_cons, List.append_assoc, Case.allTokens, List.cons_append,
      List.cons_append]
    cases bound with
    | nil => simp [Case.allTokens] at hbound
    | cons head bound =>
      have hmore : ((all.map Case.allTokens).flatten ++ closing :: rest).length ≤ bound.length := by
        simp [Case.allTokens] at hbound ⊢
        omega
      cases hlabel : c.label with
      | none =>
        have hkind : c.head.kind = .symbol .underscore := by
          rw [hheads.1, Case.headKind, hlabel]
        have htyped : typedCases (c :: all) = typedCases all := by simp [typedCases, hlabel]
        have hbodies' : defaultBodies (c :: all) = c.body :: defaultBodies all := by
          simp [defaultBodies, hlabel]
        -- There is room for one default case only.
        have hdefault : default = none := by
          cases default with
          | none => rfl
          | some _ => simp [hbodies'] at hlength
        subst hdefault
        rw [hbodies'] at hlength ⊢
        rw [htyped]
        exact (cases_default_ok hkind).mpr
          ⟨rfl, c.body, _, hcase, ih hheads.2 hcolons.2 hbodies.2 hlength hmore⟩
      | some kind =>
        have hkind : c.head.kind = .literal (.type kind) := by
          rw [hheads.1, Case.headKind, hlabel]
        have htyped : typedCases (c :: all) = (kind, c.body) :: typedCases all := by
          simp [typedCases, hlabel]
        have hbodies' : defaultBodies (c :: all) = defaultBodies all := by
          simp [defaultBodies, hlabel]
        rw [hbodies'] at hlength ⊢
        rw [htyped]
        exact (cases_typed_ok hkind).mpr
          ⟨c.body, _, _, hcase, ih hheads.2 hcolons.2 hbodies.2 hlength hmore, rfl⟩

/-- The parameters of a function are read back. -/
private theorem parameters_complete {parameters : List (Token × Token × Parameter)}
    {tokens : List Token} {closing : Token}
    (hparameters : ∀ p ∈ parameters, p.1.kind = .literal (.type p.2.2.kind) ∧
      p.2.1.kind = .identifier p.2.2.name)
    (hseparated : Separated (parameters.map fun p => [p.1, p.2.1]) tokens)
    (hclosing : closing.kind = .symbol .rightParen) :
    listUntil parameter .rightParen (tokens ++ closing :: rest) =
      .ok (parameters.map fun p => p.2.2) rest := by
  have hread : listUntil parameter .rightParen (tokens ++ closing :: rest) =
      .ok ((parameters.map fun p => ([p.1, p.2.1], p.2.2)).map Prod.snd) rest := by
    -- Parameters are two tokens each, the first of which is the name of a type.
    refine listUntil_complete (by decide) ?_ ?_ ?_ hclosing rest
    · intro part hmem sign more _
      obtain ⟨p, hp, rfl⟩ := List.mem_map.mp hmem
      exact parameter_ok.mpr ⟨p.1, p.2.1, rfl, hparameters p hp⟩
    · intro part hmem
      obtain ⟨p, hp, rfl⟩ := List.mem_map.mp hmem
      exact ⟨p.1, [p.2.1], rfl, by simp [(hparameters p hp).1]⟩
    · simpa [Function.comp_def] using hseparated
  simpa [Function.comp_def] using hread

/-- A token that starts an expression starts an expression statement. -/
private theorem statement_of_startsExpression {token : Token} {more : List Token}
    (h : StartsExpression token.kind) :
    Grammar.statement (room + 1) inFunction (token :: more) =
      expressionStatement room token.line (token :: more) := by
  rw [statement_cons]
  generalize token.kind = kind at h
  cases h <;> rfl

end Statements

/-- A statement is read back in front of everything that it could not take. -/
theorem statement_complete (inFunction : Bool) (hlevel : d + room = maxNesting + 1) :
    CompleteStatement (statement room inFunction) inFunction d := by
  induction room generalizing d inFunction with
  | zero =>
    intro tokens s h
    cases h <;> omega
  | succ room ih =>
    intro tokens s h rest hrest
    have hnested : (d + 1) + room = maxNesting + 1 := by omega
    have hexpression : CompleteExpression (expression room) (d + 1) := expression_complete hnested
    cases h with
    | block _ hopening hparts hclosing =>
      simp only [List.cons_append, List.append_assoc, List.nil_append, statement_cons, hopening]
      exact block_ok.mpr ⟨_, _, _, rfl, hopening,
        statementsToBrace_complete (ih inFunction hnested) hparts hclosing (Nat.le_refl _), rfl⟩
    | declare _ hstart htoken hsemi =>
      simp only [List.cons_append, List.nil_append, statement_cons, hstart]
      exact declaration_ok.mpr ⟨_, _, _, _, rfl, hstart, htoken, .inr ⟨_, rfl, hsemi, rfl⟩⟩
    | declareWith _ hstart htoken hsign hinit hsemi =>
      simp only [List.cons_append, List.append_assoc, List.nil_append, statement_cons, hstart]
      exact declaration_ok.mpr ⟨_, _, _, _, rfl, hstart, htoken, .inl ⟨_, _, _, _, rfl, hsign,
        hexpression hinit _ rest (hsemi ▸ .semicolon), hsemi, rfl⟩⟩
    | branch _ hstart hopening htest hclosing hyes =>
      simp only [List.cons_append, List.append_assoc, statement_cons, hstart]
      have hnot : NotNext (.keyword .kwElse) rest := hrest .branch
      exact branch_ok.mpr ⟨_, _, _, _, _, rest, rfl, hstart,
        condition_complete hexpression hopening htest hclosing,
        ih inFunction hnested hyes rest fun _ => hnot, .inr ⟨hnot, rfl, rfl⟩⟩
    | branchElse _ hstart hopening htest hclosing hyes hclosed helse hno =>
      simp only [List.cons_append, List.append_assoc, statement_cons, hstart]
      -- The first statement leaves the `else`, since it has no open `if` at its end.
      exact branch_ok.mpr ⟨_, _, _, _, _, _, rfl, hstart,
        condition_complete hexpression hopening htest hclosing,
        ih inFunction hnested hyes _ fun hends => absurd hends hclosed,
        .inl ⟨_, _, _, rfl, helse,
          ih inFunction hnested hno rest fun hends => hrest (.otherwise hends), rfl⟩⟩
    | loop _ hstart hopening htest hclosing hbody =>
      simp only [List.cons_append, List.append_assoc, statement_cons, hstart]
      exact loop_ok.mpr ⟨_, _, _, _, _, rfl, hstart,
        condition_complete hexpression hopening htest hclosing,
        ih inFunction hnested hbody rest fun hends => hrest (.loop hends), rfl⟩
    | select _ hstart hopening hsubject hclosing hleft hheads hcolons hbodies hlength hright =>
      simp only [List.cons_append, List.append_assoc, List.nil_append, statement_cons, hstart]
      exact select_ok.mpr ⟨_, _, _, _, _, _, _, rfl, hstart,
        condition_complete hexpression hopening hsubject hclosing, hleft,
        cases_complete (ih inFunction hnested) hheads hcolons hbodies hlength hright
          (Nat.le_refl _), rfl⟩
    | function _ hstart htoken hopening hparameters hseparated hnodup hclosing hcolon htype hleft
        hparts hright =>
      simp only [List.cons_append, List.append_assoc, List.nil_append, statement_cons, hstart]
      refine function_ok.mpr ⟨rfl, _, _, _, _, _, _, _, _, _, _, _, _, rfl, hstart, htoken,
        hopening, parameters_complete hparameters hseparated hclosing, ?_, hcolon, htype, hleft,
        statementsToBrace_complete (ih true hnested) hparts hright (Nat.le_refl _), rfl⟩
      rw [firstRepeated_eq_none_iff, List.map_map]
      exact ⟨hnodup, by simp⟩
    | ret _ hstart hsemi =>
      simp only [List.cons_append, List.nil_append, statement_cons, hstart]
      exact ret_ok.mpr ⟨_, _, rfl, hstart, .inl ⟨_, rfl, hsemi, rfl⟩⟩
    | retWith _ hstart hvalue hsemi =>
      simp only [List.cons_append, List.append_assoc, List.nil_append, statement_cons, hstart]
      refine ret_ok.mpr ⟨_, _, rfl, hstart, .inr ⟨?_, _, _,
        hexpression hvalue _ rest (hsemi ▸ .semicolon), hsemi, rfl⟩⟩
      -- An expression does not start with a semicolon, so a value is read.
      obtain ⟨first, more, rfl, hstarts⟩ := hvalue.first
      refine (NotNext_cons _ _ _).mpr fun hkind => ?_
      rw [hkind] at hstarts
      cases hstarts
    | expression _ hvalue hsemi =>
      obtain ⟨_, _, heq, hstarts⟩ := hvalue.first
      cases heq
      simp only [List.cons_append, List.append_assoc, List.nil_append]
      rw [statement_of_startsExpression hstarts]
      exact expressionStatement_ok.mpr
        ⟨_, _, hexpression hvalue _ rest (hsemi ▸ .semicolon), hsemi, rfl⟩

/-! ## Programs -/

/-- The statements of a program are read to the end of the tokens. -/
private theorem statementsToEnd_complete {parts : List (List Token × Statement)}
    {bound : List Token} (hparts : ∀ part ∈ parts, DerivesStatement false 1 part.1 part.2)
    (hbound : (parts.map Prod.fst).flatten.length ≤ bound.length) :
    statementsToEnd bound (parts.map Prod.fst).flatten = .ok (parts.map Prod.snd) [] := by
  induction parts generalizing bound with
  | nil => cases bound <;> rfl
  | cons part parts ih =>
    rw [List.forall_mem_cons] at hparts
    -- Behind a statement stands the next one, or nothing: no `else` in either case.
    have helse : NotNext (.keyword .kwElse) ((parts.map Prod.fst).flatten ++ []) :=
      not_else_of_parts hparts.2 (NotNext_nil _)
    rw [List.append_nil] at helse
    have hread : statement maxNesting false (part.1 ++ (parts.map Prod.fst).flatten) =
        .ok part.2 (parts.map Prod.fst).flatten :=
      statement_complete false (by decide) hparts.1 _ fun _ => helse
    obtain ⟨token, more, heq, -⟩ := hparts.1.first
    cases bound with
    | nil => simp [heq] at hbound
    | cons head bound =>
      have hlength : (parts.map Prod.fst).flatten.length ≤ bound.length := by
        simp [heq] at hbound ⊢
        omega
      rw [List.map_cons, List.flatten_cons, heq, List.cons_append]
      rw [heq, List.cons_append] at hread
      exact statementsToEnd_cons_ok.mpr
        ⟨part.2, _, parts.map Prod.snd, hread, ih hparts.2 hlength, rfl⟩

/-- A program that the grammar derives is read, and no token is left. -/
theorem program_complete {tokens : List Token} {p : Program} (h : DerivesProgram tokens p) :
    program tokens = .ok p [] := by
  obtain ⟨parts, hparts, rfl, rfl⟩ := h
  exact statementsToEnd_complete hparts (Nat.le_refl _)

/-- A program is read from exactly the tokens that the grammar derives it from. -/
theorem program_reads_iff_derives (tokens : List Token) (p : Program) :
    (∃ rest, program tokens = .ok p rest) ↔ DerivesProgram tokens p := by
  constructor
  · intro h
    obtain ⟨rest, h⟩ := h
    exact program_sound h
  · intro h
    obtain ⟨parts, hparts, rfl, rfl⟩ := h
    exact ⟨[], statementsToEnd_complete hparts (Nat.le_refl _)⟩

end Script.Grammar
