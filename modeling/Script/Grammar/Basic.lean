import Script.Tree

/-! # Reading trees from tokens

A `Parser` consumes tokens from the front of a list.  It keeps the tokens that it has not consumed
also when it fails, so the place where reading stopped can be seen.

A rule that repeats something recurses on the tokens that were left when it started.  Every round
consumes at least one token, so the recursion reaches the end of that list only when no token is
left, and then gives the answer for the end of the input. -/

namespace Script

/-- What a rule of the grammar was waiting for. -/
inductive Expectation where
  | symbol (sign : Symbol)
  | keyword (word : Keyword)
  | identifier
  | typeName
  | expression
  | statement
  /-- What may follow a minus sign. -/
  | negatable
  /-- What may follow `not`. -/
  | invertible
  /-- A comma, or the sign that closes a list. -/
  | commaOr (closing : Symbol)
  /-- A case of a match statement, or its end. -/
  | matchCase
  deriving DecidableEq

/-- What was waited for, in words. -/
def Expectation.describe : Expectation → String
  | symbol sign => (TokenKind.symbol sign).describe
  | keyword word => (TokenKind.keyword word).describe
  | identifier => "identifier"
  | typeName => "type name"
  | expression => "expression"
  | statement => "statement"
  | negatable => "number or identifier after '-'"
  | invertible => "boolean or identifier after 'not'"
  | commaOr closing => "',' or " ++ (TokenKind.symbol closing).describe
  | matchCase => "type name, '_' or '\x7d'"

/-- Why tokens are no program. -/
inductive ParseFault where
  /-- A token, given as messages show it, that fits no rule. -/
  | unexpectedToken (expected : Expectation) (found : String)
  /-- The tokens ended inside a construct. -/
  | unexpectedEnd (expected : Expectation)
  /-- A second default case in one match statement. -/
  | duplicateDefaultCase
  /-- A function declared inside another function. -/
  | nestedFunction (name : String)
  /-- A function with two parameters of one name. -/
  | duplicateParameter (function name : String)
  /-- Statements and expressions nested too deeply. -/
  | nestingTooDeep
  deriving DecidableEq

/-- A fault and its place. -/
structure ParseError where
  fault : ParseFault
  position : Position
  deriving DecidableEq

/-- How many statements and expressions may enclose one another. -/
def maxNesting : Nat := 64

/-- The fault in words. -/
def ParseFault.describe : ParseFault → String
  | unexpectedToken expected found => s!"expected {expected.describe}, found {found}"
  | unexpectedEnd expected => s!"expected {expected.describe}, found end of input"
  | duplicateDefaultCase => "a match statement may only have one default case"
  | nestedFunction name => s!"function '{name}' cannot be declared inside another function"
  | duplicateParameter function name =>
    s!"function '{function}' declares parameter '{name}' more than once"
  | nestingTooDeep => s!"nesting exceeds the limit of {maxNesting} levels"

namespace ParseError

/-- The error as it is reported. -/
def message (e : ParseError) : String :=
  s!"Error on {e.position.describe}: {e.fault.describe}{e.position.excerpt}"

/-- The end of a source text: behind the last character of its last line. -/
def endOf (source : String) : Position :=
  let lines := Text.lines source.toList
  { line := max 1 lines.length, column := (lines.getLast?.getD []).length + 1 }

/-- Fills in the text of the line at fault.  A source that ended too early is at fault at its
end. -/
def inSource (e : ParseError) (source : String) : ParseError :=
  match e.fault with
  | .unexpectedEnd _ => { e with position := (endOf source).inSource source }
  | _ => { e with position := e.position.inSource source }

end ParseError

/-- A reader of trees: it consumes tokens from the front of the list. -/
abbrev Parser := EStateM ParseError (List Token)

namespace Parser

/-- The next token, without consuming it. -/
def peek : Parser (Option Token) :=
  fun tokens => .ok tokens.head? tokens

/-- Consumes the next token, if there is one. -/
def next : Parser (Option Token) :=
  fun tokens => .ok tokens.head? tokens.tail

/-- The tokens that are left. -/
def remaining : Parser (List Token) :=
  fun tokens => .ok tokens tokens

/-- Fails with a fault at a place. -/
def fail {α : Type} (fault : ParseFault) (position : Position) : Parser α :=
  throw ⟨fault, position⟩

/-- Fails because a token, or the end of the input, is not what was waited for. -/
def reject {α : Type} (expected : Expectation) : Option Token → Parser α
  | some found => fail (.unexpectedToken expected found.describe) found.position
  | none => fail (.unexpectedEnd expected) .nowhere

/-- Consumes the next token if it is of the given kind. -/
def nextIf (kind : TokenKind) : Parser (Option Token) := do
  match ← peek with
  | some token => if token.kind = kind then next else return none
  | none => return none

/-- Whether the next token is of the given kind. -/
def nextIs (kind : TokenKind) : Parser Bool := do
  return (← peek).any (·.kind = kind)

/-- Consumes the next token, which has to be of the given kind. -/
def required (kind : TokenKind) (expected : Expectation) : Parser Token := do
  match ← nextIf kind with
  | some token => return token
  | none => reject expected (← peek)

/-- Consumes a symbol. -/
def symbol (sign : Symbol) : Parser Token :=
  required (.symbol sign) (.symbol sign)

/-- Consumes a reserved word. -/
def keyword (word : Keyword) : Parser Token :=
  required (.keyword word) (.keyword word)

/-- Consumes an identifier. -/
def identifier : Parser String := do
  match ← peek with
  | some ⟨.identifier name, _, _, _⟩ => do
    let _ ← next
    return name
  | other => reject .identifier other

/-- Consumes a type name. -/
def typeName : Parser Kind := do
  match ← peek with
  | some ⟨.literal (.type kind), _, _, _⟩ => do
    let _ ← next
    return kind
  | other => reject .typeName other

/-- The items behind the first one of a list: each follows a comma, and the closing sign ends the
list.  Every round consumes a token, so the tokens left at the start bound the rounds. -/
def listRest {α : Type} (item : Parser α) (closing : Symbol) : List Token → Parser (List α)
  | [] => reject (.commaOr closing) none
  | _ :: bound => do
    let found ← next
    match found.map Token.kind with
    | some (.symbol sign) =>
      if sign = .comma then
        let first ← item
        let more ← listRest item closing bound
        return first :: more
      else if sign = closing then
        return []
      else
        reject (.commaOr closing) found
    | _ => reject (.commaOr closing) found

/-- Items between commas up to a closing sign, which is consumed too. -/
def listUntil {α : Type} (item : Parser α) (closing : Symbol) : Parser (List α) := do
  match ← nextIf (.symbol closing) with
  | some _ => return []
  | none =>
    let first ← item
    let more ← listRest item closing (← remaining)
    return first :: more

end Parser

end Script
