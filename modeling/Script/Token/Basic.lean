import Script.Literal
import Script.Position

/-! # Tokens

A token is the smallest meaningful piece of a source text: a literal, a name, a reserved word or a
symbol, together with the text it was read from and the place where that text starts. -/

namespace Script

/-- The reserved words that are neither literals nor type names. -/
inductive Keyword where
  | kwVar
  | kwFun
  | kwIf
  | kwElse
  | kwWhile
  | kwMatch
  | kwReturn
  | kwTypeof
  | kwIs
  | kwAnd
  | kwOr
  | kwXor
  | kwNot
  deriving DecidableEq

namespace Keyword

/-- How a reserved word is written. -/
def spelling : Keyword → String
  | kwVar => "var"
  | kwFun => "fun"
  | kwIf => "if"
  | kwElse => "else"
  | kwWhile => "while"
  | kwMatch => "match"
  | kwReturn => "return"
  | kwTypeof => "typeof"
  | kwIs => "is"
  | kwAnd => "and"
  | kwOr => "or"
  | kwXor => "xor"
  | kwNot => "not"

/-- All reserved words. -/
def all : List Keyword :=
  [kwVar, kwFun, kwIf, kwElse, kwWhile, kwMatch, kwReturn, kwTypeof, kwIs, kwAnd, kwOr, kwXor,
   kwNot]

end Keyword

/-- Operators and punctuation. -/
inductive Symbol where
  | plus
  | minus
  | star
  | slash
  | percent
  | caret
  | assign
  | equal
  | notEqual
  | greater
  | greaterEqual
  | less
  | lessEqual
  | arrow
  | leftParen
  | rightParen
  | leftBrace
  | rightBrace
  | leftBracket
  | rightBracket
  | comma
  | semicolon
  | colon
  | underscore
  deriving DecidableEq

namespace Symbol

/-- How a symbol is written. -/
def spelling : Symbol → String
  | plus => "+"
  | minus => "-"
  | star => "*"
  | slash => "/"
  | percent => "%"
  | caret => "^"
  | assign => "="
  | equal => "=="
  | notEqual => "!="
  | greater => ">"
  | greaterEqual => ">="
  | less => "<"
  | lessEqual => "<="
  | arrow => "=>"
  | leftParen => "("
  | rightParen => ")"
  | leftBrace => "\x7b"
  | rightBrace => "\x7d"
  | leftBracket => "["
  | rightBracket => "]"
  | comma => ","
  | semicolon => ";"
  | colon => ":"
  | underscore => "_"

/-- The symbol that a single character is.  The underscore is absent: it starts a word. -/
def ofChar? : Char → Option Symbol
  | '+' => some plus
  | '-' => some minus
  | '*' => some star
  | '/' => some slash
  | '%' => some percent
  | '^' => some caret
  | '=' => some assign
  | '>' => some greater
  | '<' => some less
  | '(' => some leftParen
  | ')' => some rightParen
  | '{' => some leftBrace
  | '}' => some rightBrace
  | '[' => some leftBracket
  | ']' => some rightBracket
  | ',' => some comma
  | ';' => some semicolon
  | ':' => some colon
  | _ => none

/-- The symbol that two characters are together. -/
def ofPair? : Char → Char → Option Symbol
  | '=', '=' => some equal
  | '!', '=' => some notEqual
  | '>', '=' => some greaterEqual
  | '<', '=' => some lessEqual
  | '=', '>' => some arrow
  | _, _ => none

end Symbol

/-- What a token is, with the value of a literal and the name of an identifier. -/
inductive TokenKind where
  | literal (value : Literal)
  | identifier (name : String)
  | keyword (word : Keyword)
  | symbol (sign : Symbol)
  deriving DecidableEq

namespace TokenKind

/-- The words that are not identifiers, with what they are instead. -/
def reserved : List (String × TokenKind) :=
  [("true", .literal (.bool true)), ("false", .literal (.bool false)), ("null", .literal .null),
   ("_", .symbol .underscore)] ++
  Kind.typeNames.map (fun (name, kind) => (name, .literal (.type kind))) ++
  Keyword.all.map (fun word => (word.spelling, .keyword word))

/-- A whole word is a reserved word if it is spelled like one, and an identifier otherwise. -/
def ofWord (word : String) : TokenKind :=
  (reserved.lookup word).getD (.identifier word)

/-- What a token is, in words. -/
def describe : TokenKind → String
  | .literal (.integer _) => "integer literal"
  | .literal (.float _) => "float literal"
  | .literal (.bool _) => "boolean literal"
  | .literal (.char _) => "character literal"
  | .literal (.string _) => "string literal"
  | .literal .null => "'null'"
  | .literal (.type _) => "type name"
  | .identifier _ => "identifier"
  | .keyword word => "'" ++ word.spelling ++ "'"
  | .symbol sign => "'" ++ sign.spelling ++ "'"

end TokenKind

/-- A token with its text and the place where that text starts. -/
structure Token where
  kind : TokenKind
  /-- The text of the token. -/
  lexeme : String
  /-- The line of the first character, counted from one. -/
  line : Nat
  /-- The column of the first character, counted from one. -/
  column : Nat
  deriving DecidableEq

namespace Token

/-- Where the token starts. -/
def position (t : Token) : Position :=
  { line := t.line, column := t.column }

/-- The token's text between quotes, as messages show it. -/
def describe (t : Token) : String :=
  "'" ++ t.lexeme ++ "'"

end Token

/-- Why a piece of text is no token. -/
inductive LexFault where
  /-- No token starts with this character. -/
  | unrecognizedCharacter
  /-- A number that ends in its point. -/
  | malformedNumber
  /-- An integer beyond the largest one that the language has. -/
  | integerTooLarge
  /-- A character literal without a character or without its closing quote. -/
  | unterminatedChar
  /-- A string literal without its closing quote. -/
  | unterminatedString
  deriving DecidableEq

/-- The fault in words. -/
def LexFault.describe : LexFault → String
  | unrecognizedCharacter => "unrecognized character"
  | malformedNumber => "malformed number"
  | integerTooLarge => "integer literal out of range"
  | unterminatedChar => "unterminated character literal"
  | unterminatedString => "unterminated string literal"

/-- A piece of text that is no token, and where it starts. -/
structure LexError where
  fault : LexFault
  /-- The text at fault. -/
  lexeme : String
  position : Position
  deriving DecidableEq

/-- The error as it is reported. -/
def LexError.message (e : LexError) : String :=
  s!"Error on {e.position.describe}: {e.fault.describe} '{e.lexeme}'{e.position.excerpt}"

end Script
