import Script.Grammar.Statement

/-!
# The rules of the grammar

The grammar as derivations: `Derives` and `DerivesStatement` say which trees a list of tokens
stands for, rule by rule and without any order of reading. A repeated part of a rule is a list of
the parts that stand in its place.

Every statement and every expression is at a level of nesting. A statement of the program is at
level one, and whatever stands inside a statement or expression is one level further in; no level
is beyond `maxNesting`. An operator stores its line, and every other node stores the line of its
first token, where parentheses around an expression do not count.

## Key definitions

- `Derives`: the rules of expressions
- `DerivesStatement`: the rules of statements
- `DerivesProgram`: a program is its statements, one after the other
-/

namespace Script.Grammar

/-- The binary operators with their tokens, one row for each level, the tightest first. -/
def operatorRows : List (List (TokenKind × BinaryOp)) :=
  [ -- exponent
   [(.symbol .caret, .pow)],
   -- multiply
   [(.symbol .star, .mul), (.symbol .slash, .div), (.symbol .percent, .mod)],
   -- additive
   [(.symbol .plus, .add), (.symbol .minus, .sub)],
   -- relational
   [(.symbol .greater, .greater), (.symbol .greaterEqual, .greaterEqual), (.symbol .less, .less),
    (.symbol .lessEqual, .lessEqual)],
   -- equality
   [(.symbol .equal, .equal), (.symbol .notEqual, .notEqual)],
   -- xor, and, or
   [(.keyword .kwXor, .xor)],
   [(.keyword .kwAnd, .and)],
   [(.keyword .kwOr, .or)]]

/-- The unary operators with their tokens. -/
def unaryRow : List (TokenKind × UnaryOp) :=
  [(.symbol .minus, .negate), (.keyword .kwNot, .not), (.keyword .kwTypeof, .typeof)]

/-- Which first tokens an operand may have: a number or a name for a minus sign, a boolean or a name
    for `not`, and any for `typeof`. -/
inductive Operand : UnaryOp → TokenKind → Prop where
  | negateInteger (n : Int32) : Operand .negate (.literal (.integer n))
  | negateFloat (x : Float32) : Operand .negate (.literal (.float x))
  | negateName (name : String) : Operand .negate (.identifier name)
  | notBool (b : Bool) : Operand .not (.literal (.bool b))
  | notName (name : String) : Operand .not (.identifier name)
  | typeof (kind : TokenKind) : Operand .typeof kind

/-- Parts with commas between them. -/
inductive Separated : List (List Token) → List Token → Prop where
  | none : Separated [] []
  | one (part : List Token) : Separated [part] part
  | more {part next tokens : List Token} {parts : List (List Token)} {comma : Token} :
      comma.kind = .symbol .comma → Separated (next :: parts) tokens →
      Separated (part :: next :: parts) (part ++ comma :: tokens)

/-- The kinds of expressions. A chain of level `n + 1` has operators of row `n` of the table between
    its operands, which are chains of level `n`. -/
inductive Phrase where
  | factor
  | unary
  | chain (n : Nat)
  | typeTest
  | expression

/-- The rules of expressions: the tokens of a phrase, and the tree that they stand for. The number
    is the level of nesting that the phrase is at. -/
inductive Derives : Nat → Phrase → List Token → Expr → Prop where
  | literal {level : Nat} {token : Token} {value : Literal} :
      token.kind = .literal value →
      Derives level .factor [token] (.literal value token.line)
  | identifier {level : Nat} {token : Token} {name : String} :
      token.kind = .identifier name →
      Derives level .factor [token] (.identifier name token.line)
  | call {level : Nat} {token opening closing : Token} {name : String}
      {arguments : List (List Token × Expr)} {tokens : List Token} :
      token.kind = .identifier name → opening.kind = .symbol .leftParen →
      (∀ argument ∈ arguments, Derives (level + 1) .expression argument.1 argument.2) →
      Separated (arguments.map Prod.fst) tokens → closing.kind = .symbol .rightParen →
      Derives level .factor (token :: opening :: (tokens ++ [closing]))
        (.call name (arguments.map Prod.snd) token.line)
  | parentheses {level : Nat} {opening closing : Token} {tokens : List Token} {expr : Expr} :
      opening.kind = .symbol .leftParen → Derives (level + 1) .expression tokens expr →
      closing.kind = .symbol .rightParen →
      Derives level .factor (opening :: (tokens ++ [closing])) expr
  | bare {level : Nat} {tokens : List Token} {expr : Expr} :
      Derives level .factor tokens expr → Derives level .unary tokens expr
  | unary {level : Nat} {token first : Token} {op : UnaryOp} {tokens : List Token} {expr : Expr} :
      (token.kind, op) ∈ unaryRow → Operand op first.kind →
      Derives level .factor (first :: tokens) expr →
      Derives level .unary (token :: first :: tokens) (.unary op expr token.line)
  | operand {level : Nat} {tokens : List Token} {expr : Expr} :
      Derives level .unary tokens expr → Derives level (.chain 0) tokens expr
  | single {level n : Nat} {tokens : List Token} {expr : Expr} :
      Derives level (.chain n) tokens expr → Derives level (.chain (n + 1)) tokens expr
  | operation {level n : Nat} {row : List (TokenKind × BinaryOp)} {token : Token} {op : BinaryOp}
      {leftTokens rightTokens : List Token} {left right : Expr} :
      operatorRows[n]? = some row → (token.kind, op) ∈ row →
      Derives level (.chain (n + 1)) leftTokens left → Derives level (.chain n) rightTokens right →
      Derives level (.chain (n + 1)) (leftTokens ++ token :: rightTokens)
        (.binary left op right token.line)
  | untested {level : Nat} {tokens : List Token} {expr : Expr} :
      Derives level (.chain 8) tokens expr → Derives level .typeTest tokens expr
  | tested {level : Nat} {token : Token} {leftTokens rightTokens : List Token}
      {left right : Expr} :
      token.kind = .keyword .kwIs →
      Derives level (.chain 8) leftTokens left → Derives level (.chain 8) rightTokens right →
      Derives level .typeTest (leftTokens ++ token :: rightTokens)
        (.binary left .is right token.line)
  | plain {level : Nat} {tokens : List Token} {expr : Expr} :
      level ≤ maxNesting → Derives level .typeTest tokens expr →
      Derives level .expression tokens expr
  | assign {level : Nat} {token sign : Token} {name : String} {tokens : List Token} {expr : Expr} :
      level ≤ maxNesting → token.kind = .identifier name → sign.kind = .symbol .assign →
      Derives (level + 1) .expression tokens expr →
      Derives level .expression (token :: sign :: tokens) (.assign name expr token.line)

/-- The statements behind which an `else` belongs to an `if` inside them: the last of the nested
    statements has no `else` yet. -/
inductive EndsOpen : Statement → Prop where
  | branch {condition : Expr} {yes : Statement} {line : Nat} :
      EndsOpen (.branch condition yes none line)
  | otherwise {condition : Expr} {yes no : Statement} {line : Nat} :
      EndsOpen no → EndsOpen (.branch condition yes (some no) line)
  | loop {condition : Expr} {body : Statement} {line : Nat} :
      EndsOpen body → EndsOpen (.loop condition body line)

/-- A case of a match statement: its kind, or none for the default case, the tokens of its body, and
    its body. -/
structure Case where
  label : Option Kind
  head : Token
  colon : Token
  tokens : List Token
  body : Statement

/-- The tokens of a case are its head, a colon and its body. -/
def Case.allTokens (c : Case) : List Token :=
  c.head :: c.colon :: c.tokens

/-- The head of a case is the type name of its kind, or an underscore. -/
def Case.headKind (c : Case) : TokenKind :=
  match c.label with
  | some kind => .literal (.type kind)
  | none => .symbol .underscore

/-- The cases with a type name, in order. -/
def typedCases (cases : List Case) : List (Kind × Statement) :=
  cases.filterMap fun c => c.label.map fun kind => (kind, c.body)

/-- The bodies of the default cases. -/
def defaultBodies (cases : List Case) : List Statement :=
  (cases.filter fun c => c.label.isNone).map Case.body

/-- The rules of statements. The flag says whether the statement stands in the body of a function,
    and the number is the level of nesting that it is at. -/
inductive DerivesStatement : Bool → Nat → List Token → Statement → Prop where
  | block {inFunction : Bool} {level : Nat} {opening closing : Token}
      {parts : List (List Token × Statement)} :
      level ≤ maxNesting → opening.kind = .symbol .leftBrace →
      (∀ part ∈ parts, DerivesStatement inFunction (level + 1) part.1 part.2) →
      closing.kind = .symbol .rightBrace →
      DerivesStatement inFunction level (opening :: ((parts.map Prod.fst).flatten ++ [closing]))
        (.block (parts.map Prod.snd) opening.line)
  | declare {inFunction : Bool} {level : Nat} {start token semicolon : Token} {name : String} :
      level ≤ maxNesting → start.kind = .keyword .kwVar → token.kind = .identifier name →
      semicolon.kind = .symbol .semicolon →
      DerivesStatement inFunction level [start, token, semicolon] (.declare name none start.line)
  | declareWith {inFunction : Bool} {level : Nat} {start token sign semicolon : Token}
      {name : String} {tokens : List Token} {init : Expr} :
      level ≤ maxNesting → start.kind = .keyword .kwVar → token.kind = .identifier name →
      sign.kind = .symbol .assign → Derives (level + 1) .expression tokens init →
      semicolon.kind = .symbol .semicolon →
      DerivesStatement inFunction level (start :: token :: sign :: (tokens ++ [semicolon]))
        (.declare name (some init) start.line)
  | branch {inFunction : Bool} {level : Nat} {start opening closing : Token}
      {tokens yesTokens : List Token} {condition : Expr} {yes : Statement} :
      level ≤ maxNesting → start.kind = .keyword .kwIf → opening.kind = .symbol .leftParen →
      Derives (level + 1) .expression tokens condition → closing.kind = .symbol .rightParen →
      DerivesStatement inFunction (level + 1) yesTokens yes →
      DerivesStatement inFunction level (start :: opening :: (tokens ++ closing :: yesTokens))
        (.branch condition yes none start.line)
  | branchElse {inFunction : Bool} {level : Nat} {start opening closing otherwise : Token}
      {tokens yesTokens noTokens : List Token} {condition : Expr} {yes no : Statement} :
      level ≤ maxNesting → start.kind = .keyword .kwIf → opening.kind = .symbol .leftParen →
      Derives (level + 1) .expression tokens condition → closing.kind = .symbol .rightParen →
      DerivesStatement inFunction (level + 1) yesTokens yes → ¬ EndsOpen yes →
      otherwise.kind = .keyword .kwElse → DerivesStatement inFunction (level + 1) noTokens no →
      DerivesStatement inFunction level
        (start :: opening :: (tokens ++ closing :: (yesTokens ++ otherwise :: noTokens)))
        (.branch condition yes (some no) start.line)
  | loop {inFunction : Bool} {level : Nat} {start opening closing : Token}
      {tokens bodyTokens : List Token} {condition : Expr} {body : Statement} :
      level ≤ maxNesting → start.kind = .keyword .kwWhile → opening.kind = .symbol .leftParen →
      Derives (level + 1) .expression tokens condition → closing.kind = .symbol .rightParen →
      DerivesStatement inFunction (level + 1) bodyTokens body →
      DerivesStatement inFunction level (start :: opening :: (tokens ++ closing :: bodyTokens))
        (.loop condition body start.line)
  | select {inFunction : Bool} {level : Nat} {start opening closing left right : Token}
      {tokens : List Token} {subject : Expr} {cases : List Case} :
      level ≤ maxNesting → start.kind = .keyword .kwMatch → opening.kind = .symbol .leftParen →
      Derives (level + 1) .expression tokens subject → closing.kind = .symbol .rightParen →
      left.kind = .symbol .leftBrace → (∀ c ∈ cases, c.head.kind = c.headKind) →
      (∀ c ∈ cases, c.colon.kind = .symbol .colon) →
      (∀ c ∈ cases, DerivesStatement inFunction (level + 1) c.tokens c.body) →
      (defaultBodies cases).length ≤ 1 → right.kind = .symbol .rightBrace →
      DerivesStatement inFunction level
        (start :: opening :: (tokens ++ closing :: left ::
          ((cases.map Case.allTokens).flatten ++ [right])))
        (.select subject (typedCases cases) (defaultBodies cases).head? start.line)
  | function {level : Nat} {start token opening closing colon type left right : Token}
      {name : String} {parameters : List (Token × Token × Parameter)} {tokens : List Token}
      {returnKind : Kind} {parts : List (List Token × Statement)} :
      level ≤ maxNesting → start.kind = .keyword .kwFun → token.kind = .identifier name →
      opening.kind = .symbol .leftParen →
      (∀ p ∈ parameters, p.1.kind = .literal (.type p.2.2.kind) ∧
        p.2.1.kind = .identifier p.2.2.name) →
      Separated (parameters.map fun p => [p.1, p.2.1]) tokens →
      (parameters.map fun p => p.2.2.name).Nodup → closing.kind = .symbol .rightParen →
      colon.kind = .symbol .colon → type.kind = .literal (.type returnKind) →
      left.kind = .symbol .leftBrace →
      (∀ part ∈ parts, DerivesStatement true (level + 1) part.1 part.2) →
      right.kind = .symbol .rightBrace →
      DerivesStatement false level
        (start :: token :: opening :: (tokens ++ closing :: colon :: type :: left ::
          ((parts.map Prod.fst).flatten ++ [right])))
        (.function name (parameters.map fun p => p.2.2) returnKind (parts.map Prod.snd) start.line)
  | ret {inFunction : Bool} {level : Nat} {start semicolon : Token} :
      level ≤ maxNesting → start.kind = .keyword .kwReturn → semicolon.kind = .symbol .semicolon →
      DerivesStatement inFunction level [start, semicolon] (.ret none start.line)
  | retWith {inFunction : Bool} {level : Nat} {start semicolon : Token} {tokens : List Token}
      {value : Expr} :
      level ≤ maxNesting → start.kind = .keyword .kwReturn →
      Derives (level + 1) .expression tokens value → semicolon.kind = .symbol .semicolon →
      DerivesStatement inFunction level (start :: (tokens ++ [semicolon]))
        (.ret (some value) start.line)
  | expression {inFunction : Bool} {level : Nat} {first semicolon : Token} {tokens : List Token}
      {value : Expr} :
      level ≤ maxNesting → Derives (level + 1) .expression (first :: tokens) value →
      semicolon.kind = .symbol .semicolon →
      DerivesStatement inFunction level (first :: (tokens ++ [semicolon]))
        (.expression value first.line)

/-- A program is its statements, one after the other, at the first level and outside of every
    function. -/
def DerivesProgram (tokens : List Token) (program : Program) : Prop :=
  ∃ parts : List (List Token × Statement),
    (∀ part ∈ parts, DerivesStatement false 1 part.1 part.2) ∧
      tokens = (parts.map Prod.fst).flatten ∧ program = parts.map Prod.snd

/-! ## The table of operators -/

/-- Every entry of the table pairs an operator with its token, in the row for its tightness. -/
private theorem operatorRows_entries : ∀ row ∈ operatorRows.zipIdx, ∀ entry ∈ row.1,
    BinaryOp.ofToken? entry.1 = some entry.2 ∧ entry.2.tightness = 8 - row.2 := by
  decide

/-- The rows of the table hold the operators of one tightness each. -/
theorem mem_operatorRows_iff (n : Nat) (kind : TokenKind) (op : BinaryOp) :
    (∃ row, operatorRows[n]? = some row ∧ (kind, op) ∈ row) ↔
      n < 8 ∧ BinaryOp.ofToken? kind = some op ∧ op.tightness = 8 - n := by
  constructor
  · intro h
    obtain ⟨row, hrow, hmem⟩ := h
    have hentry : (row, n) ∈ operatorRows.zipIdx := List.mem_zipIdx_iff_getElem?.mpr hrow
    exact ⟨(List.getElem?_eq_some_iff.mp hrow).1, operatorRows_entries _ hentry _ hmem⟩
  · intro h
    obtain ⟨hn, hop, htight⟩ := h
    have hrow : n = 8 - op.tightness := by omega
    subst hrow
    unfold BinaryOp.ofToken? at hop
    split at hop <;> cases hop
    -- The operator `is` has a rule of its own and no row.
    case h_16 => exact absurd hn (by decide)
    all_goals exact ⟨_, rfl, by simp⟩

/-- The unary operators of the grammar are those that the parser knows. -/
theorem mem_unaryRow_iff (kind : TokenKind) (op : UnaryOp) :
    (kind, op) ∈ unaryRow ↔ UnaryOp.ofToken? kind = some op := by
  constructor
  · intro hmem
    exact (by decide : ∀ entry ∈ unaryRow, UnaryOp.ofToken? entry.1 = some entry.2) _ hmem
  · intro hop
    unfold UnaryOp.ofToken? at hop
    split at hop <;> cases hop <;> simp [unaryRow]

/-- An operand of the grammar may start as the parser checks. -/
theorem operand_iff (op : UnaryOp) (kind : TokenKind) :
    Operand op kind ↔ mayFollow op kind = true := by
  constructor
  · intro h
    cases h <;> rfl
  · intro h
    unfold mayFollow at h
    split at h
    case h_7 => cases h
    all_goals constructor

/-! ## First tokens -/

/-- The kinds of tokens that an expression may start with. -/
inductive StartsExpression : TokenKind → Prop where
  | literal (value : Literal) : StartsExpression (.literal value)
  | identifier (name : String) : StartsExpression (.identifier name)
  | parentheses : StartsExpression (.symbol .leftParen)
  | minus : StartsExpression (.symbol .minus)
  | not : StartsExpression (.keyword .kwNot)
  | typeof : StartsExpression (.keyword .kwTypeof)

/-- A factor does not start with a unary operator. -/
theorem Derives.factor_first {level : Nat} {tokens : List Token} {e : Expr}
    (h : Derives level .factor tokens e) :
    ∃ token more, tokens = token :: more ∧ StartsExpression token.kind ∧
      UnaryOp.ofToken? token.kind = none := by
  cases h with
  | literal hkind => exact ⟨_, _, rfl, hkind ▸ .literal _, by rw [hkind]; rfl⟩
  | identifier hkind => exact ⟨_, _, rfl, hkind ▸ .identifier _, by rw [hkind]; rfl⟩
  | call hkind => exact ⟨_, _, rfl, hkind ▸ .identifier _, by rw [hkind]; rfl⟩
  | parentheses hkind => exact ⟨_, _, rfl, hkind ▸ .parentheses, by rw [hkind]; rfl⟩

/-- An expression of any kind has a first token. -/
theorem Derives.first {level : Nat} {phrase : Phrase} {tokens : List Token} {e : Expr}
    (h : Derives level phrase tokens e) :
    ∃ token more, tokens = token :: more ∧ StartsExpression token.kind := by
  -- Expressions that start with another phrase start as this phrase does.
  induction h with
  | literal hkind => exact ⟨_, _, rfl, hkind ▸ .literal _⟩
  | identifier hkind => exact ⟨_, _, rfl, hkind ▸ .identifier _⟩
  | call hkind => exact ⟨_, _, rfl, hkind ▸ .identifier _⟩
  | parentheses hkind => exact ⟨_, _, rfl, hkind ▸ .parentheses⟩
  | unary hmem =>
    refine ⟨_, _, rfl, ?_⟩
    simp only [unaryRow, List.mem_cons, Prod.mk.injEq, List.not_mem_nil, or_false] at hmem
    rcases hmem with ⟨hkind, -⟩ | ⟨hkind, -⟩ | ⟨hkind, -⟩
    · exact hkind ▸ .minus
    · exact hkind ▸ .not
    · exact hkind ▸ .typeof
  | assign _ hkind => exact ⟨_, _, rfl, hkind ▸ .identifier _⟩
  | operation _ _ _ _ ihleft =>
    obtain ⟨token, more, rfl, hstarts⟩ := ihleft
    exact ⟨token, _, rfl, hstarts⟩
  | tested _ _ _ ihleft =>
    obtain ⟨token, more, rfl, hstarts⟩ := ihleft
    exact ⟨token, _, rfl, hstarts⟩
  | bare _ ih | operand _ ih | single _ ih | untested _ ih | plain _ _ ih => exact ih

/-- A statement has a first token, which neither closes a block nor belongs to an `if`. -/
theorem DerivesStatement.first {inFunction : Bool} {level : Nat} {tokens : List Token}
    {s : Statement} (h : DerivesStatement inFunction level tokens s) :
    ∃ token more, tokens = token :: more ∧ token.kind ≠ .symbol .rightBrace ∧
      token.kind ≠ .keyword .kwElse := by
  cases h with
  | expression _ hvalue =>
    obtain ⟨token, more, heq, hstarts⟩ := hvalue.first
    cases heq
    refine ⟨_, _, rfl, ?_, ?_⟩ <;> intro hkind <;> rw [hkind] at hstarts <;> cases hstarts
  | block _ hkind | declare _ hkind | declareWith _ hkind | branch _ hkind | branchElse _ hkind
  | loop _ hkind | select _ hkind | function _ hkind | ret _ hkind | retWith _ hkind =>
    exact ⟨_, _, rfl, by simp [hkind], by simp [hkind]⟩

end Script.Grammar
