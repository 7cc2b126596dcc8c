import Script.Token.Basic

/-! # Reading tokens

A cursor stands somewhere in a source text.  `Cursor.next` passes the blank text in front of it,
reads one lexeme and reports either a token or why the lexeme is none; after a fault the cursor
stands behind the text at fault, so reading can go on.

At each place the longest lexeme is read: `scan` says which one that is and what it means.  The
cursor keeps the line that it has reached and where that line starts; both change only where text
with line feeds is passed. -/

namespace Script

/-! ## Characters -/

/-- A character that separates tokens. -/
def isBlank (c : Char) : Bool :=
  c == ' ' || c == '\t' || c == '\r' || c == '\x0c' || c == '\n'

/-- A character that starts a word: an ASCII letter, an underscore or a dollar sign. -/
def isWordStart (c : Char) : Bool :=
  c.isAlpha || c == '_' || c == '$'

/-- A character that continues a word. -/
def isWordRest (c : Char) : Bool :=
  isWordStart c || c.isDigit

/-- The number that a list of decimal digits writes. -/
def digitsValue (digits : List Char) : Nat :=
  digits.foldl (fun n c => 10 * n + (c.toNat - '0'.toNat)) 0

/-! ## One lexeme -/

/-- A lexeme at the start of a text, and what it is. -/
structure Scan where
  /-- The token that the lexeme is, or why it is none. -/
  result : Except LexFault TokenKind
  /-- The characters read. -/
  lexeme : List Char

/-- The largest integer that a literal can write. -/
def maxInteger : Nat := 2147483647

/-- An integer literal; it may have any number of leading zeros. -/
def scanInteger (digits : List Char) : Except LexFault TokenKind :=
  if digitsValue digits ≤ maxInteger then
    .ok (.literal (.integer (Int32.ofNat (digitsValue digits))))
  else
    .error .integerTooLarge

/-- A float literal denotes the representable number nearest to the decimal, ties going to the even
neighbour. -/
def scanFloat (whole fraction : List Char) : Except LexFault TokenKind :=
  if fraction.isEmpty then
    .error .malformedNumber
  else
    .ok (.literal (.float
      (Float32.ofScientific (digitsValue (whole ++ fraction)) true fraction.length)))

/-- A number starts with the digit `c`.  A point behind the digits belongs to the number. -/
def scanNumber (c : Char) (rest : List Char) : Scan :=
  let whole := c :: rest.takeWhile Char.isDigit
  match rest.dropWhile Char.isDigit with
  | '.' :: more =>
    let fraction := more.takeWhile Char.isDigit
    ⟨scanFloat whole fraction, whole ++ '.' :: fraction⟩
  | _ => ⟨scanInteger whole, whole⟩

/-- A string literal, from behind its opening quote.  It has no escapes, and without a closing quote
it covers all that is left. -/
def scanString (rest : List Char) : Scan :=
  let body := rest.takeWhile (· != '"')
  match rest.dropWhile (· != '"') with
  | [] => ⟨.error .unterminatedString, '"' :: body⟩
  | _ :: _ => ⟨.ok (.literal (.string (String.ofList body))), '"' :: (body ++ ['"'])⟩

/-- A character literal, from behind its opening quote. -/
def scanChar : List Char → Scan
  | [] => ⟨.error .unterminatedChar, ['\'']⟩
  | '\'' :: _ => ⟨.error .unterminatedChar, ['\'', '\'']⟩
  | c :: '\'' :: _ => ⟨.ok (.literal (.char c)), ['\'', c, '\'']⟩
  | c :: _ => ⟨.error .unterminatedChar, ['\'', c]⟩

/-- The symbol that starts with `c`: one of two characters if there is one. -/
def scanSymbol (c : Char) (rest : List Char) : Scan :=
  match rest.head?.bind (Symbol.ofPair? c), rest with
  | some sign, d :: _ => ⟨.ok (.symbol sign), [c, d]⟩
  | _, _ =>
    match Symbol.ofChar? c with
    | some sign => ⟨.ok (.symbol sign), [c]⟩
    | none => ⟨.error .unrecognizedCharacter, [c]⟩

/-- The lexeme of a text that starts with `c`. -/
def scan (c : Char) (rest : List Char) : Scan :=
  if isWordStart c then
    let word := c :: rest.takeWhile isWordRest
    ⟨.ok (.ofWord (String.ofList word)), word⟩
  else if c.isDigit then
    scanNumber c rest
  else if c == '"' then
    scanString rest
  else if c == '\'' then
    scanChar rest
  else
    scanSymbol c rest

/-- The blank text at the start of a text: blank characters, and comments, which start with two
slashes and end before the next line feed.  The flag says whether the text continues a comment. -/
def leadingBlank (inComment : Bool) : List Char → List Char
  | [] => []
  | c :: rest =>
    if inComment then
      c :: leadingBlank (c != '\n') rest
    else if isBlank c then
      c :: leadingBlank false rest
    else if c == '/' && rest.head? == some '/' then
      c :: leadingBlank true rest
    else
      []

/-! ## Cursors -/

/-- A place in a text: how many characters stand in front of it, and the text from it on. -/
structure Mark where
  offset : Nat
  text : List Char
  deriving DecidableEq

/-- The place a number of characters further on. -/
def Mark.ahead (mark : Mark) (count : Nat) : Mark :=
  ⟨mark.offset + count, mark.text.drop count⟩

/-- A text that is being read. -/
structure Cursor where
  /-- The whole text. -/
  source : String
  /-- The line that has been reached, counted from one. -/
  line : Nat
  /-- Where that line starts. -/
  lineStart : Mark
  /-- Where reading goes on. -/
  here : Mark
  deriving DecidableEq

namespace Cursor

/-- The start of a text. -/
def start (source : String) : Cursor :=
  ⟨source, 1, ⟨0, source.toList⟩, ⟨0, source.toList⟩⟩

/-- The line and column of a place.  A place in front of the current line, where a literal with line
feeds has started, is counted out from the start of the text. -/
def locate (cur : Cursor) (place : Mark) : Position :=
  if cur.lineStart.offset ≤ place.offset then
    { line := cur.line, column := place.offset - cur.lineStart.offset + 1 }
  else
    let before := cur.source.toList.take place.offset
    { line := before.count '\n' + 1, column := (Text.lastLine before).length + 1 }

/-- The column of the place where reading goes on. -/
def column (cur : Cursor) : Nat :=
  (cur.locate cur.here).column

/-- The line that the cursor is on, as it is shown to a reader. -/
def lineText (cur : Cursor) : String :=
  String.ofList (Text.trimReturns (Text.firstLine cur.lineStart.text))

/-- Moves a number of characters ahead on the same line. -/
def advance (cur : Cursor) (count : Nat) : Cursor :=
  { cur with here := cur.here.ahead count }

/-- Counts line feeds that have been passed; the last of them stands in front of `start`. -/
def startLine (cur : Cursor) (feeds : Nat) (start : Mark) : Cursor :=
  { cur with line := cur.line + feeds, lineStart := start }

/-- Passes a blank character. -/
def passBlank (cur : Cursor) (c : Char) : Cursor :=
  let behind := cur.advance 1
  if c = '\n' then behind.startLine 1 behind.here else behind

/-- The cursor behind the blank text in front of it. -/
def skipBlank (cur : Cursor) : Cursor :=
  (leadingBlank false cur.here.text).foldl passBlank cur

/-- Passes a lexeme.  Only strings and characters in quotes can hold line feeds. -/
def passLexeme (cur : Cursor) (lexeme : List Char) : Cursor :=
  let behind := cur.advance lexeme.length
  match lexeme with
  | '"' :: _ =>
    if '\n' ∈ lexeme then
      behind.startLine (lexeme.count '\n')
        (cur.here.ahead (lexeme.length - (Text.lastLine lexeme).length))
    else
      behind
  | '\'' :: '\n' :: _ => behind.startLine 1 (cur.here.ahead 2)
  | _ => behind

/-- Reports a lexeme that has been passed; `start` is where it starts. -/
def report (cur : Cursor) (start : Mark) (s : Scan) : Except LexError Token :=
  let position := cur.locate start
  match s.result with
  | .ok kind => .ok ⟨kind, String.ofList s.lexeme, position.line, position.column⟩
  | .error fault => .error ⟨fault, String.ofList s.lexeme, position.inSource cur.source⟩

/-- Reads the next token or fault and moves behind it.  At the end of the text nothing is read and
the cursor moves to the end. -/
def next (cur : Cursor) : Option (Except LexError Token) × Cursor :=
  let cur := cur.skipBlank
  match cur.here.text with
  | [] => (none, cur)
  | c :: rest =>
    let s := scan c rest
    let behind := cur.passLexeme s.lexeme
    (some (behind.report cur.here s), behind)

/-- The next token or fault, without moving. -/
def peek (cur : Cursor) : Option (Except LexError Token) :=
  cur.next.1

/-- Up to `n` tokens and faults from the cursor on, each with the cursor behind it. -/
def items : Nat → Cursor → List (Except LexError Token × Cursor)
  | 0, _ => []
  | n + 1, cur =>
    match cur.next with
    | (none, _) => []
    | (some item, behind) => (item, behind) :: items n behind

end Cursor

/-- All tokens and faults of a source text in order, each with the cursor behind it.  Each of them
covers at least one character, so their number is bounded by the length of the text. -/
def readItems (source : String) : List (Except LexError Token × Cursor) :=
  (Cursor.start source).items source.toList.length

/-- The tokens of a source text, or its first fault. -/
def readTokens (source : String) : Except LexError (List Token) :=
  (readItems source).mapM Prod.fst

end Script
