import Script.Grammar.Statement
import Script.Proofs.ParserSteps

/-!
# Steps of the grammar

What each rule of the grammar reads: the tokens that it takes itself, and what it leaves to the
rules inside it. A rule that repeats something has one lemma for one round.

## Key results

- `factor_identifier_ok`, `unary_operator_ok`, `operations_operator`, `typeTest_ok`,
  `expression_assign_ok`: the rules of expressions
- `statementsToBrace_more_ok`, `branch_ok`, `cases_typed_ok`, `function_ok`: the rules of statements
- `statement_cons`: which rule reads a statement
- `parse_ok_iff`: a source text is read in two steps
-/

namespace Script.Grammar

open Script.Parser

variable {tokens rest : List Token} {nested : Parser Expr} {e : Expr} {room : Nat}

/-! ## Expressions -/

/-- A factor starts with a literal, a name or a parenthesis. -/
theorem factor_first (h : factor nested tokens = .ok e rest) :
    ∃ token more, tokens = token :: more ∧ ((∃ value, token.kind = .literal value) ∨
      (∃ name, token.kind = .identifier name) ∨ token.kind = .symbol .leftParen) := by
  cases tokens with
  | nil => simp [factor] at h
  | cons token more =>
    refine ⟨token, more, rfl, ?_⟩
    obtain ⟨kind, lexeme, line, column⟩ := token
    cases kind with
    | literal value => exact .inl ⟨value, rfl⟩
    | identifier name => exact .inr (.inl ⟨name, rfl⟩)
    | keyword word => simp [factor] at h
    | symbol sign =>
      -- Of the signs, only the opening parenthesis has a rule.
      by_cases hsign : sign = .leftParen
      · exact .inr (.inr (congrArg _ hsign))
      · simp [factor, hsign] at h

/-- A literal is read as it is. -/
theorem factor_literal {token : Token} {more : List Token} {value : Literal}
    (hkind : token.kind = .literal value) :
    factor nested (token :: more) = .ok (.literal value token.line) more := by
  obtain ⟨kind, lexeme, line, column⟩ := token
  cases hkind
  rfl

/-- A name is called if a parenthesis follows. -/
theorem factor_identifier_ok {token : Token} {more : List Token} {name : String}
    (hkind : token.kind = .identifier name) :
    factor nested (token :: more) = .ok e rest ↔
      (∃ opening inner arguments, more = opening :: inner ∧ opening.kind = .symbol .leftParen ∧
        listUntil nested .rightParen inner = .ok arguments rest ∧
        .call name arguments token.line = e) ∨
      NotNext (.symbol .leftParen) more ∧ .identifier name token.line = e ∧ more = rest := by
  obtain ⟨kind, lexeme, line, column⟩ := token
  cases hkind
  simp only [factor, bind_next, List.head?_cons, List.tail_cons]
  rw [bind_nextIf_ok]
  simp only [bind_ok, pure_ok]
  constructor
  · intro h
    rcases h with ⟨opening, inner, rfl, hopening, arguments, _, harguments, rfl, rfl⟩ | h
    · exact .inl ⟨opening, inner, arguments, rfl, hopening, harguments, rfl⟩
    · exact .inr h
  · intro h
    rcases h with ⟨opening, inner, arguments, rfl, hopening, harguments, rfl⟩ | h
    · exact .inl ⟨opening, inner, rfl, hopening, arguments, rest, harguments, rfl, rfl⟩
    · exact .inr h

/-- Parentheses leave no trace in the tree. -/
theorem factor_parentheses_ok {opening : Token} {more : List Token}
    (hkind : opening.kind = .symbol .leftParen) :
    factor nested (opening :: more) = .ok e rest ↔
      ∃ closing, nested more = .ok e (closing :: rest) ∧ closing.kind = .symbol .rightParen := by
  obtain ⟨kind, lexeme, line, column⟩ := opening
  cases hkind
  simp only [factor, bind_next, List.head?_cons, List.tail_cons, bind_ok, pure_ok, symbol_ok]
  constructor
  · intro h
    obtain ⟨_, _, hnested, closing, _, ⟨rfl, hclosing⟩, rfl, rfl⟩ := h
    exact ⟨closing, hnested, hclosing⟩
  · intro h
    obtain ⟨closing, hnested, hclosing⟩ := h
    exact ⟨e, closing :: rest, hnested, closing, rest, ⟨rfl, hclosing⟩, rfl, rfl⟩

/-- A unary operator wants an operand that it fits. -/
private theorem checkOperand_ok {op : UnaryOp} {u : Unit} :
    checkOperand op tokens = .ok u rest ↔
      (op = .typeof ∨ ∃ token ∈ tokens.head?, mayFollow op token.kind = true) ∧ tokens = rest := by
  cases tokens with
  | nil => cases op <;> simp [checkOperand, operandExpectation]
  | cons token more =>
    cases op with
    | typeof => simp [checkOperand, operandExpectation]
    | negate => by_cases h : mayFollow .negate token.kind <;>
        simp [checkOperand, operandExpectation, h]
    | not => by_cases h : mayFollow .not token.kind <;>
        simp [checkOperand, operandExpectation, h]

/-- Without a unary operator in front, a unary expression is a factor. -/
theorem unary_bare {token : Token} {more : List Token}
    (hop : UnaryOp.ofToken? token.kind = none) :
    unary nested (token :: more) = factor nested (token :: more) := by
  simp only [unary, bind_peek, List.head?_cons, hop]

/-- A unary operator stands in front of a factor that it fits. -/
theorem unary_operator_ok {token : Token} {more : List Token} {op : UnaryOp}
    (hop : UnaryOp.ofToken? token.kind = some op) :
    unary nested (token :: more) = .ok e rest ↔
      ∃ first inner operand, more = first :: inner ∧ mayFollow op first.kind = true ∧
        factor nested (first :: inner) = .ok operand rest ∧ .unary op operand token.line = e := by
  simp only [unary, bind_peek, List.head?_cons, hop, bind_next, List.tail_cons, bind_ok, pure_ok,
    checkOperand_ok]
  constructor
  · intro h
    obtain ⟨_, _, ⟨hfits, rfl⟩, operand, _, hoperand, rfl, rfl⟩ := h
    -- Behind `typeof` nothing is checked, but the factor is not empty.
    obtain ⟨first, inner, rfl, -⟩ := factor_first hoperand
    refine ⟨first, inner, operand, rfl, ?_, hoperand, rfl⟩
    rcases hfits with rfl | ⟨token, htoken, hfits⟩
    · rfl
    · cases htoken
      exact hfits
  · intro h
    obtain ⟨first, inner, operand, rfl, hfits, hoperand, rfl⟩ := h
    exact ⟨(), _, ⟨.inr ⟨first, rfl, hfits⟩, rfl⟩, operand, rest, hoperand, rfl, rfl⟩

/-- No binary operator of the given tightness comes next. -/
def NoOperator (tightness : Nat) (tokens : List Token) : Prop :=
  ∀ token ∈ tokens.head?, ∀ op, BinaryOp.ofToken? token.kind = some op → op.tightness ≠ tightness

/-- Either an operator of the given tightness comes next, or none does. -/
theorem noOperator_or (tightness : Nat) (tokens : List Token) :
    NoOperator tightness tokens ∨ ∃ token more op, tokens = token :: more ∧
      BinaryOp.ofToken? token.kind = some op ∧ op.tightness = tightness := by
  cases tokens with
  | nil => exact .inl (by simp [NoOperator])
  | cons token more =>
    by_cases h : ∃ op, BinaryOp.ofToken? token.kind = some op ∧ op.tightness = tightness
    · obtain ⟨op, hop, htight⟩ := h
      exact .inr ⟨token, more, op, rfl, hop, htight⟩
    · left
      rintro _ ⟨⟩ op hop htight
      exact h ⟨op, hop, htight⟩

/-- An operator of the row is read with its line. -/
theorem nextOperator_of_some {tightness : Nat} {token : Token} {more : List Token} {op : BinaryOp}
    (hop : BinaryOp.ofToken? token.kind = some op) (htight : op.tightness = tightness) :
    nextOperator tightness (token :: more) = .ok (some (op, token.line)) more := by
  simp only [nextOperator, bind_peek, List.head?_cons, hop, htight, ↓reduceIte, bind_next,
    List.tail_cons]
  rfl

/-- Without an operator of the row, no token is consumed. -/
theorem nextOperator_of_noOperator {tightness : Nat} (h : NoOperator tightness tokens) :
    nextOperator tightness tokens = .ok none tokens := by
  cases tokens with
  | nil => rfl
  | cons token more =>
    simp only [nextOperator, bind_peek, List.head?_cons]
    cases hop : BinaryOp.ofToken? token.kind with
    | none => rfl
    | some op =>
      simp only [h token rfl op hop, ↓reduceIte]
      rfl

/-- A chain goes on with an operator of its row and the right operand. -/
theorem operations_operator {tightness : Nat} {operand : Parser Expr} {head token : Token}
    {bound more : List Token} {left : Expr} {op : BinaryOp}
    (hop : BinaryOp.ofToken? token.kind = some op) (htight : op.tightness = tightness) :
    operations tightness operand (head :: bound) left (token :: more) =
      (operand >>= fun right =>
        operations tightness operand bound (.binary left op right token.line)) more := by
  rw [operations, bind_of_ok (nextOperator_of_some hop htight)]

/-- A chain ends where no operator of its row comes next. -/
theorem operations_end {tightness : Nat} {operand : Parser Expr} {left : Expr}
    (h : NoOperator tightness tokens) (bound : List Token) :
    operations tightness operand bound left tokens = .ok left tokens := by
  -- The answer is the same whether the rounds are used up or the loop sees the end itself.
  cases bound with
  | nil => rfl
  | cons head bound =>
    rw [operations, bind_of_ok (nextOperator_of_noOperator h)]
    rfl

/-- A level reads an operand of the next tighter level and its operations behind it. -/
theorem level_succ_ok {n : Nat} :
    level nested (n + 1) tokens = .ok e rest ↔
      ∃ first mid, level nested n tokens = .ok first mid ∧
        operations (8 - n) (level nested n) mid first mid = .ok e rest := by
  rw [level, bind_ok]
  -- The loop is given all the tokens behind the first operand as its bound.
  rfl

/-- A type test has the word `is` and a second operand, or neither. -/
theorem typeTest_ok :
    typeTest nested tokens = .ok e rest ↔
      ∃ left mid, level nested 8 tokens = .ok left mid ∧
        ((∃ token more right, mid = token :: more ∧ token.kind = .keyword .kwIs ∧
            level nested 8 more = .ok right rest ∧ .binary left .is right token.line = e) ∨
          NotNext (.keyword .kwIs) mid ∧ left = e ∧ mid = rest) := by
  rw [typeTest, bind_ok]
  constructor
  · intro h
    obtain ⟨left, mid, hleft, h⟩ := h
    refine ⟨left, mid, hleft, ?_⟩
    -- Either there is an `is`, with the right side behind it, or what was read is all.
    rcases bind_nextIf_ok.mp h with ⟨token, more, rfl, hkind, h⟩ | ⟨hnot, h⟩
    · obtain ⟨right, _, hright, h⟩ := bind_ok.mp h
      obtain ⟨rfl, rfl⟩ := pure_ok.mp h
      exact .inl ⟨token, more, right, rfl, hkind, hright, rfl⟩
    · exact .inr ⟨hnot, pure_ok.mp h⟩
  · intro h
    obtain ⟨left, mid, hleft, h⟩ := h
    refine ⟨left, mid, hleft, bind_nextIf_ok.mpr ?_⟩
    rcases h with ⟨token, more, right, rfl, hkind, hright, rfl⟩ | ⟨hnot, h⟩
    · exact .inl ⟨token, more, rfl, hkind, bind_ok.mpr ⟨right, rest, hright, rfl⟩⟩
    · exact .inr ⟨hnot, pure_ok.mpr h⟩

/-- The tokens start with a name and an equals sign. -/
def StartsAssignment (tokens : List Token) : Prop :=
  ∃ token sign more name, tokens = token :: sign :: more ∧ token.kind = .identifier name ∧
    sign.kind = .symbol .assign

/-- A name with `=` behind it is the target of an assignment. -/
theorem assignmentTarget_of_starts {token sign : Token} {more : List Token} {name : String}
    (hname : token.kind = .identifier name) (hsign : sign.kind = .symbol .assign) :
    assignmentTarget (token :: sign :: more) = .ok (some (name, token.line)) more := by
  obtain ⟨kind, lexeme, line, column⟩ := token
  obtain ⟨kind', lexeme', line', column'⟩ := sign
  cases hname
  cases hsign
  rfl

/-- Without a name and `=` behind it, nothing is read as a target. -/
theorem assignmentTarget_of_not_starts (h : ¬ StartsAssignment tokens) :
    assignmentTarget tokens = .ok none tokens := by
  unfold assignmentTarget
  split
  · exact absurd ⟨_, _, _, _, rfl, rfl, rfl⟩ h
  · rfl

/-- A name and an equals sign start an assignment. -/
theorem expression_assign_ok {token sign : Token} {more : List Token} {name : String}
    (hname : token.kind = .identifier name) (hsign : sign.kind = .symbol .assign) :
    expression (room + 1) (token :: sign :: more) = .ok e rest ↔
      ∃ value, expression room more = .ok value rest ∧ .assign name value token.line = e := by
  rw [expression, bind_ok, assignmentTarget_of_starts hname hsign]
  constructor
  · intro h
    -- The name and the equals sign are gone, and the value is read behind them.
    obtain ⟨_, _, ⟨⟩, h⟩ := h
    obtain ⟨value, _, hvalue, h⟩ := bind_ok.mp h
    obtain ⟨rfl, rfl⟩ := pure_ok.mp h
    exact ⟨value, hvalue, rfl⟩
  · intro h
    obtain ⟨value, hvalue, rfl⟩ := h
    exact ⟨_, _, rfl, bind_ok.mpr ⟨value, rest, hvalue, rfl⟩⟩

/-- Every other expression is a type test. -/
theorem expression_plain (h : ¬ StartsAssignment tokens) :
    expression (room + 1) tokens = typeTest (expression room) tokens := by
  rw [expression, bind_of_ok (assignmentTarget_of_not_starts h)]

/-! ## Statements -/

variable {statement : Parser Statement} {s : Statement}

/-- At the closing brace the body ends. -/
theorem statementsToBrace_closing {head closing : Token} {bound : List Token}
    (hkind : closing.kind = .symbol .rightBrace) :
    statementsToBrace statement (head :: bound) (closing :: rest) = .ok [] rest := by
  simp only [statementsToBrace, bind_peek, List.head?_cons, hkind, ↓reduceIte, bind_next,
    List.tail_cons]
  rfl

/-- In front of any other token, braces hold one more statement. -/
theorem statementsToBrace_more_ok {head token : Token} {bound more : List Token}
    {body : List Statement} (hkind : token.kind ≠ .symbol .rightBrace) :
    statementsToBrace statement (head :: bound) (token :: more) = .ok body rest ↔
      ∃ first mid others, statement (token :: more) = .ok first mid ∧
        statementsToBrace statement bound mid = .ok others rest ∧ first :: others = body := by
  simp only [statementsToBrace, bind_peek, List.head?_cons, hkind, ↓reduceIte, bind_ok, pure_ok]
  constructor
  · intro h
    obtain ⟨first, mid, hfirst, others, _, hothers, rfl, rfl⟩ := h
    exact ⟨first, mid, others, hfirst, hothers, rfl⟩
  · intro h
    obtain ⟨first, mid, others, hfirst, hothers, rfl⟩ := h
    exact ⟨first, mid, hfirst, others, rest, hothers, rfl, rfl⟩

/-- A body in braces is an opening brace and what is read up to the closing one. -/
private theorem braced_ok {body : List Statement} :
    braced statement tokens = .ok body rest ↔
      ∃ opening more, tokens = opening :: more ∧ opening.kind = .symbol .leftBrace ∧
        statementsToBrace statement more more = .ok body rest := by
  simp only [braced, bind_ok, symbol_ok, bind_remaining, and_assoc]

/-- A block is a body in braces, with the line of the opening brace. -/
theorem block_ok :
    block statement tokens = .ok s rest ↔
      ∃ opening more body, tokens = opening :: more ∧ opening.kind = .symbol .leftBrace ∧
        statementsToBrace statement more more = .ok body rest ∧ .block body opening.line = s := by
  simp only [block, bind_peek, bind_ok, braced_ok, pure_ok]
  constructor
  · intro h
    obtain ⟨body, _, ⟨opening, more, rfl, hopening, hbody⟩, rfl, rfl⟩ := h
    exact ⟨opening, more, body, rfl, hopening, hbody, rfl⟩
  · intro h
    obtain ⟨opening, more, body, rfl, hopening, hbody, rfl⟩ := h
    exact ⟨body, rest, ⟨opening, more, rfl, hopening, hbody⟩, rfl, rfl⟩

/-- A declaration is `var`, a name, a value if `=` stands there, and a semicolon. -/
theorem declaration_ok :
    declaration room tokens = .ok s rest ↔
      ∃ start token more name, tokens = start :: token :: more ∧ start.kind = .keyword .kwVar ∧
        token.kind = .identifier name ∧
        ((∃ sign inner semicolon init, more = sign :: inner ∧ sign.kind = .symbol .assign ∧
            expression room inner = .ok init (semicolon :: rest) ∧
            semicolon.kind = .symbol .semicolon ∧ .declare name (some init) start.line = s) ∨
          ∃ semicolon, more = semicolon :: rest ∧ semicolon.kind = .symbol .semicolon ∧
            .declare name none start.line = s) := by
  simp only [declaration, ↓bind_nextIf_ok, bind_ok, keyword_ok, identifier_ok, symbol_ok, pure_ok]
  constructor
  · intro h
    obtain ⟨start, _, ⟨rfl, hstart⟩, name, more, ⟨token, rfl, htoken⟩, h⟩ := h
    refine ⟨start, token, more, name, rfl, hstart, htoken, ?_⟩
    rcases h with ⟨sign, inner, rfl, hsign, init, _, hinit, semicolon, _, ⟨rfl, hsemi⟩, rfl, rfl⟩ |
      ⟨-, semicolon, _, ⟨rfl, hsemi⟩, rfl, rfl⟩
    · exact .inl ⟨sign, inner, semicolon, init, rfl, hsign, hinit, hsemi, rfl⟩
    · exact .inr ⟨semicolon, rfl, hsemi, rfl⟩
  · intro h
    obtain ⟨start, token, more, name, rfl, hstart, htoken, h⟩ := h
    refine ⟨start, _, ⟨rfl, hstart⟩, name, more, ⟨token, rfl, htoken⟩, ?_⟩
    rcases h with ⟨sign, inner, semicolon, init, rfl, hsign, hinit, hsemi, rfl⟩ |
      ⟨semicolon, rfl, hsemi, rfl⟩
    · exact .inl ⟨sign, inner, rfl, hsign, init, _, hinit, semicolon, rest, ⟨rfl, hsemi⟩, rfl, rfl⟩
    · -- A semicolon is no equals sign.
      exact .inr ⟨by simp [hsemi], semicolon, rest, ⟨rfl, hsemi⟩, rfl, rfl⟩

/-- A condition is an expression in parentheses. -/
theorem condition_ok :
    condition room tokens = .ok e rest ↔
      ∃ opening more closing, tokens = opening :: more ∧ opening.kind = .symbol .leftParen ∧
        expression room more = .ok e (closing :: rest) ∧ closing.kind = .symbol .rightParen := by
  simp only [condition, bind_ok, symbol_ok, pure_ok]
  constructor
  · intro h
    obtain ⟨opening, more, ⟨rfl, hopening⟩, _, _, hvalue, closing, _, ⟨rfl, hclosing⟩, rfl, rfl⟩ :=
      h
    exact ⟨opening, more, closing, rfl, hopening, hvalue, hclosing⟩
  · intro h
    obtain ⟨opening, more, closing, rfl, hopening, hvalue, hclosing⟩ := h
    exact ⟨opening, more, ⟨rfl, hopening⟩, e, _, hvalue, closing, rest, ⟨rfl, hclosing⟩, rfl, rfl⟩

/-- A branch is `if`, a condition and a statement, and another statement if `else` stands there. -/
theorem branch_ok :
    branch room statement tokens = .ok s rest ↔
      ∃ start more test body yes mid, tokens = start :: more ∧ start.kind = .keyword .kwIf ∧
        condition room more = .ok test body ∧ statement body = .ok yes mid ∧
        ((∃ otherwise inner no, mid = otherwise :: inner ∧ otherwise.kind = .keyword .kwElse ∧
            statement inner = .ok no rest ∧ .branch test yes (some no) start.line = s) ∨
          NotNext (.keyword .kwElse) mid ∧ .branch test yes none start.line = s ∧ mid = rest) := by
  simp only [branch, ↓bind_nextIf_ok, bind_ok, keyword_ok, pure_ok]
  constructor
  · intro h
    obtain ⟨start, more, ⟨rfl, hstart⟩, test, body, htest, yes, mid, hyes, h⟩ := h
    refine ⟨start, more, test, body, yes, mid, rfl, hstart, htest, hyes, ?_⟩
    rcases h with ⟨otherwise, inner, rfl, hotherwise, no, _, hno, rfl, rfl⟩ | h
    · exact .inl ⟨otherwise, inner, no, rfl, hotherwise, hno, rfl⟩
    · exact .inr h
  · intro h
    obtain ⟨start, more, test, body, yes, mid, rfl, hstart, htest, hyes, h⟩ := h
    refine ⟨start, more, ⟨rfl, hstart⟩, test, body, htest, yes, mid, hyes, ?_⟩
    rcases h with ⟨otherwise, inner, no, rfl, hotherwise, hno, rfl⟩ | h
    · exact .inl ⟨otherwise, inner, rfl, hotherwise, no, rest, hno, rfl, rfl⟩
    · exact .inr h

/-- A loop is `while`, a condition and a statement. -/
theorem loop_ok :
    loop room statement tokens = .ok s rest ↔
      ∃ start more test mid body, tokens = start :: more ∧ start.kind = .keyword .kwWhile ∧
        condition room more = .ok test mid ∧ statement mid = .ok body rest ∧
        .loop test body start.line = s := by
  simp only [loop, bind_ok, keyword_ok, pure_ok]
  constructor
  · intro h
    obtain ⟨start, more, ⟨rfl, hstart⟩, test, mid, htest, body, _, hbody, rfl, rfl⟩ := h
    exact ⟨start, more, test, mid, body, rfl, hstart, htest, hbody, rfl⟩
  · intro h
    obtain ⟨start, more, test, mid, body, rfl, hstart, htest, hbody, rfl⟩ := h
    exact ⟨start, more, ⟨rfl, hstart⟩, test, mid, htest, body, rest, hbody, rfl, rfl⟩

/-- What a case does is a colon and a statement. -/
theorem caseBody_ok :
    caseBody statement tokens = .ok s rest ↔
      ∃ colon more, tokens = colon :: more ∧ colon.kind = .symbol .colon ∧
        statement more = .ok s rest := by
  simp only [caseBody, bind_ok, symbol_ok, and_assoc]

section Cases

variable {head : Token} {bound : List Token} {default found : Option Statement}
  {typed : List (Kind × Statement)}

/-- At the closing brace the cases end, with the default case found so far. -/
theorem cases_closing {closing : Token} (hkind : closing.kind = .symbol .rightBrace) :
    cases statement (head :: bound) default (closing :: rest) = .ok ([], default) rest := by
  obtain ⟨kind, lexeme, line, column⟩ := closing
  cases hkind
  rfl

/-- A default case is read unless there was one before. -/
theorem cases_default_ok {underscore : Token} {more : List Token}
    (hkind : underscore.kind = .symbol .underscore) :
    cases statement (head :: bound) default (underscore :: more) = .ok (typed, found) rest ↔
      default = none ∧ ∃ body mid, caseBody statement more = .ok body mid ∧
        cases statement bound (some body) mid = .ok (typed, found) rest := by
  obtain ⟨kind, lexeme, line, column⟩ := underscore
  cases hkind
  simp only [cases, bind_next, List.head?_cons, List.tail_cons]
  cases default with
  | none => simp [bind_ok]
  | some _ => simp -- a second default case is a fault

/-- A case with a type name comes in front of the cases that follow. -/
theorem cases_typed_ok {name : Token} {more : List Token} {kind : Kind}
    (hkind : name.kind = .literal (.type kind)) :
    cases statement (head :: bound) default (name :: more) = .ok (typed, found) rest ↔
      ∃ body mid others, caseBody statement more = .ok body mid ∧
        cases statement bound default mid = .ok (others, found) rest ∧
        (kind, body) :: others = typed := by
  obtain ⟨kind', lexeme, line, column⟩ := name
  cases hkind
  simp only [cases, bind_next, List.head?_cons, List.tail_cons, bind_ok, pure_ok, Prod.mk.injEq]
  constructor
  · intro h
    obtain ⟨body, mid, hbody, ⟨others, _⟩, _, hothers, ⟨rfl, rfl⟩, rfl⟩ := h
    exact ⟨body, mid, others, hbody, hothers, rfl⟩
  · intro h
    obtain ⟨body, mid, others, hbody, hothers, rfl⟩ := h
    exact ⟨body, mid, hbody, (others, found), rest, hothers, ⟨rfl, rfl⟩, rfl⟩

/-- The cases go on with a closing brace, an underscore or a type name. -/
theorem cases_first (h : cases statement (head :: bound) default tokens = .ok (typed, found) rest) :
    ∃ token more, tokens = token :: more ∧ (token.kind = .symbol .rightBrace ∨
      token.kind = .symbol .underscore ∨ ∃ kind, token.kind = .literal (.type kind)) := by
  cases tokens with
  | nil => simp [cases] at h
  | cons token more =>
    refine ⟨token, more, rfl, ?_⟩
    obtain ⟨kind, lexeme, line, column⟩ := token
    -- All other tokens are refused as the head of a case.
    cases kind with
    | literal value =>
      cases value with
      | type kind => exact .inr (.inr ⟨kind, rfl⟩)
      | _ => simp [cases] at h
    | identifier name => simp [cases] at h
    | keyword word => simp [cases] at h
    | symbol sign =>
      by_cases hbrace : sign = .rightBrace
      · exact .inl (congrArg _ hbrace)
      · by_cases hunderscore : sign = .underscore
        · exact .inr (.inl (congrArg _ hunderscore))
        · simp [cases, hbrace, hunderscore] at h

end Cases

/-- A selection is `match`, a condition and the cases in braces. -/
theorem select_ok :
    select room statement tokens = .ok s rest ↔
      ∃ start more subject left mid typed default, tokens = start :: more ∧
        start.kind = .keyword .kwMatch ∧ condition room more = .ok subject (left :: mid) ∧
        left.kind = .symbol .leftBrace ∧ cases statement mid none mid = .ok (typed, default) rest ∧
        .select subject typed default start.line = s := by
  simp only [select, bind_ok, keyword_ok, symbol_ok, bind_remaining, pure_ok]
  constructor
  · intro h
    obtain ⟨start, more, ⟨rfl, hstart⟩, subject, _, hsubject, left, mid, ⟨rfl, hleft⟩,
      ⟨typed, default⟩, _, hcases, rfl, rfl⟩ := h
    exact ⟨start, more, subject, left, mid, typed, default, rfl, hstart, hsubject, hleft, hcases,
      rfl⟩
  · intro h
    obtain ⟨start, more, subject, left, mid, typed, default, rfl, hstart, hsubject, hleft, hcases,
      rfl⟩ := h
    exact ⟨start, more, ⟨rfl, hstart⟩, subject, _, hsubject, left, mid, ⟨rfl, hleft⟩,
      (typed, default), rest, hcases, rfl, rfl⟩

/-- A parameter is the name of a type and a name. -/
theorem parameter_ok {p : Parameter} :
    parameter tokens = .ok p rest ↔
      ∃ type token, tokens = type :: token :: rest ∧ type.kind = .literal (.type p.kind) ∧
        token.kind = .identifier p.name := by
  simp only [parameter, bind_ok, typeName_ok, identifier_ok, pure_ok]
  constructor
  · intro h
    obtain ⟨kind, _, ⟨type, rfl, htype⟩, name, _, ⟨token, rfl, htoken⟩, rfl, rfl⟩ := h
    exact ⟨type, token, rfl, htype, htoken⟩
  · intro h
    obtain ⟨type, token, rfl, htype, htoken⟩ := h
    exact ⟨p.kind, _, ⟨type, rfl, htype⟩, p.name, _, ⟨token, rfl, htoken⟩, rfl, rfl⟩

/-- The declaration of a function is read only outside of functions, and is `fun`, a name, the
    parameters, whose names are distinct, the type returned and a body in braces. -/
theorem function_ok {inFunction : Bool} :
    function inFunction statement tokens = .ok s rest ↔
      inFunction = false ∧ ∃ start token opening more name params colon type left inner returnKind
          body,
        tokens = start :: token :: opening :: more ∧ start.kind = .keyword .kwFun ∧
        token.kind = .identifier name ∧ opening.kind = .symbol .leftParen ∧
        listUntil parameter .rightParen more = .ok params (colon :: type :: left :: inner) ∧
        firstRepeated [] (params.map Parameter.name) = none ∧ colon.kind = .symbol .colon ∧
        type.kind = .literal (.type returnKind) ∧ left.kind = .symbol .leftBrace ∧
        statementsToBrace statement inner inner = .ok body rest ∧
        .function name params returnKind body start.line = s := by
  simp only [function, bind_ok, keyword_ok, identifier_ok]
  cases inFunction with
  | true => simp -- the fault comes before anything behind the name is read
  | false =>
    simp only [Bool.false_eq_true, ↓reduceIte, bind_ok, symbol_ok, true_and]
    constructor
    · intro h
      obtain ⟨start, _, ⟨rfl, hstart⟩, name, _, ⟨token, rfl, htoken⟩, opening, more,
        ⟨rfl, hopening⟩, params, mid, hparams, h⟩ := h
      -- The names are checked before the colon is read.
      cases hrepeated : firstRepeated [] (params.map Parameter.name) with
      | some name => simp [hrepeated] at h
      | none =>
        simp only [hrepeated, bind_ok, symbol_ok, typeName_ok, braced_ok, pure_ok] at h
        obtain ⟨colon, _, ⟨rfl, hcolon⟩, returnKind, _, ⟨type, rfl, htype⟩, body, _,
          ⟨left, inner, rfl, hleft, hbody⟩, rfl, rfl⟩ := h
        exact ⟨start, token, opening, more, name, params, colon, type, left, inner, returnKind,
          body, rfl, hstart, htoken, hopening, hparams, hrepeated, hcolon, htype, hleft, hbody,
          rfl⟩
    · intro h
      obtain ⟨start, token, opening, more, name, params, colon, type, left, inner, returnKind,
        body, rfl, hstart, htoken, hopening, hparams, hrepeated, hcolon, htype, hleft, hbody,
        rfl⟩ := h
      refine ⟨start, _, ⟨rfl, hstart⟩, name, _, ⟨token, rfl, htoken⟩, opening, more,
        ⟨rfl, hopening⟩, params, _, hparams, ?_⟩
      simp only [hrepeated, bind_ok, symbol_ok, typeName_ok, braced_ok, pure_ok]
      exact ⟨colon, _, ⟨rfl, hcolon⟩, returnKind, _, ⟨type, rfl, htype⟩, body, rest,
        ⟨left, inner, rfl, hleft, hbody⟩, rfl, rfl⟩

/-- A return is `return`, a value unless a semicolon stands there, and a semicolon. -/
theorem ret_ok :
    ret room tokens = .ok s rest ↔
      ∃ start more, tokens = start :: more ∧ start.kind = .keyword .kwReturn ∧
        ((∃ semicolon, more = semicolon :: rest ∧ semicolon.kind = .symbol .semicolon ∧
            .ret none start.line = s) ∨
          NotNext (.symbol .semicolon) more ∧ ∃ value semicolon,
            expression room more = .ok value (semicolon :: rest) ∧
            semicolon.kind = .symbol .semicolon ∧ .ret (some value) start.line = s) := by
  simp only [ret, ↓bind_nextIs_ok, bind_ok, keyword_ok, symbol_ok, pure_ok, ↓reduceIte,
    Bool.false_eq_true]
  constructor
  · intro h
    obtain ⟨start, more, ⟨rfl, hstart⟩, h⟩ := h
    refine ⟨start, more, rfl, hstart, ?_⟩
    rcases h with ⟨_, _, -, -, semicolon, _, ⟨rfl, hsemi⟩, rfl, rfl⟩ |
      ⟨hnot, value, _, hvalue, semicolon, _, ⟨rfl, hsemi⟩, rfl, rfl⟩
    · exact .inl ⟨semicolon, rfl, hsemi, rfl⟩
    · exact .inr ⟨hnot, value, semicolon, hvalue, hsemi, rfl⟩
  · intro h
    obtain ⟨start, more, rfl, hstart, h⟩ := h
    refine ⟨start, more, ⟨rfl, hstart⟩, ?_⟩
    rcases h with ⟨semicolon, rfl, hsemi, rfl⟩ | ⟨hnot, value, semicolon, hvalue, hsemi, rfl⟩
    · exact .inl ⟨semicolon, rest, rfl, hsemi, semicolon, rest, ⟨rfl, hsemi⟩, rfl, rfl⟩
    · exact .inr ⟨hnot, value, _, hvalue, semicolon, rest, ⟨rfl, hsemi⟩, rfl, rfl⟩

/-- An expression as a statement is the expression and a semicolon. -/
theorem expressionStatement_ok {line : Nat} :
    expressionStatement room line tokens = .ok s rest ↔
      ∃ value semicolon, expression room tokens = .ok value (semicolon :: rest) ∧
        semicolon.kind = .symbol .semicolon ∧ .expression value line = s := by
  simp only [expressionStatement, bind_ok, symbol_ok, pure_ok]
  constructor
  · intro h
    obtain ⟨value, _, hvalue, semicolon, _, ⟨rfl, hsemi⟩, rfl, rfl⟩ := h
    exact ⟨value, semicolon, hvalue, hsemi, rfl⟩
  · intro h
    obtain ⟨value, semicolon, hvalue, hsemi, rfl⟩ := h
    exact ⟨value, _, hvalue, semicolon, rest, ⟨rfl, hsemi⟩, rfl, rfl⟩

/-- The first token of a statement says which rule reads it. -/
theorem statement_cons (room : Nat) (inFunction : Bool) (token : Token) (more : List Token) :
    Grammar.statement (room + 1) inFunction (token :: more) =
      match token.kind with
      | .symbol .leftBrace => block (Grammar.statement room inFunction) (token :: more)
      | .keyword .kwVar => declaration room (token :: more)
      | .keyword .kwIf => branch room (Grammar.statement room inFunction) (token :: more)
      | .keyword .kwWhile => loop room (Grammar.statement room inFunction) (token :: more)
      | .keyword .kwMatch => select room (Grammar.statement room inFunction) (token :: more)
      | .keyword .kwFun => function inFunction (Grammar.statement room true) (token :: more)
      | .keyword .kwReturn => ret room (token :: more)
      | _ => expressionStatement room token.line (token :: more) := by
  obtain ⟨kind, lexeme, line, column⟩ := token
  -- Which statement it is depends on the kind of the first token only.
  cases kind with
  | keyword word => cases word <;> rfl
  | symbol sign => cases sign <;> rfl
  | _ => rfl

/-- Where a token is left, a statement is read and the loop goes on behind it. -/
theorem statementsToEnd_cons_ok {head token : Token} {bound more : List Token}
    {program : Program} :
    statementsToEnd (head :: bound) (token :: more) = .ok program rest ↔
      ∃ first mid others, Grammar.statement maxNesting false (token :: more) = .ok first mid ∧
        statementsToEnd bound mid = .ok others rest ∧ first :: others = program := by
  simp only [statementsToEnd, bind_peek, List.head?_cons, bind_ok, pure_ok]
  constructor
  · intro h
    obtain ⟨first, mid, hfirst, others, _, hothers, rfl, rfl⟩ := h
    exact ⟨first, mid, others, hfirst, hothers, rfl⟩
  · intro h
    obtain ⟨first, mid, others, hfirst, hothers, rfl⟩ := h
    exact ⟨first, mid, hfirst, others, rest, hothers, rfl, rfl⟩

end Script.Grammar

namespace Script

/-- A source text is parsed by reading its tokens and then a program from them. -/
theorem parse_ok_iff {source : String} {p : Program} :
    parse source = .ok p ↔
      ∃ tokens rest, readTokens source = .ok tokens ∧ Grammar.program tokens = .ok p rest := by
  unfold parse
  cases readTokens source with
  | error e => simp
  | ok tokens => cases hread : Grammar.program tokens <;> simp [hread]

/-- Where the text of an error stands in the source has no influence on its fault. -/
theorem ParseError.fault_inSource (e : ParseError) (source : String) :
    (e.inSource source).fault = e.fault := by
  unfold inSource
  split <;> rfl

end Script
