/-! # Lines of a text

A text is a list of characters.  A line ends at a line feed, and a carriage return directly before
that line feed belongs to the line's end.  A text that ends in a line feed has no further, empty
line behind it. -/

namespace Script.Text

/-- The lines of a text, without their ends. -/
def lines : List Char → List (List Char)
  | [] => []
  | '\n' :: rest => [] :: lines rest
  | '\r' :: '\n' :: rest => [] :: lines rest
  | c :: rest =>
    match lines rest with
    | [] => [[c]]
    | line :: more => (c :: line) :: more

/-- A line without the carriage returns at its end. -/
def trimReturns (line : List Char) : List Char :=
  (line.reverse.dropWhile (· == '\r')).reverse

/-- The text up to its first line feed. -/
def firstLine (text : List Char) : List Char :=
  text.takeWhile (· != '\n')

/-- The text behind its last line feed. -/
def lastLine (text : List Char) : List Char :=
  (text.reverse.takeWhile (· != '\n')).reverse

/-- The line with the given number, counted from one, as it is shown to a reader: without carriage
returns at its end, and empty where the text has no such line. -/
def shownLine (text : List Char) (number : Nat) : List Char :=
  trimReturns ((lines text)[number - 1]?.getD [])

end Script.Text
