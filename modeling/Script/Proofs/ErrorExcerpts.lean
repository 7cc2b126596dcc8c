import Script.Proofs.ErrorPositions
import Script.Proofs.LongestLexeme

/-!
# What errors show

An error of a source text shows the line that it is on, and a caret under the place that it points
at. Most errors are about a piece of text: a lexeme that is no token, a token that does not fit, or
the first token of what is wrong. The place of such an error is where that text stands, and the
caret is under the first character of it. This needs that a lexeme starts with a character that no
line loses when it is shown.

An error about the end of the source text has no text to point at. Its column counts all characters
of the last line, and those include carriage returns that are not shown.

## Key results

- `Position.drawsCaret_excerpt`: what an excerpt looks like
- `StandsAlone.pointsAt`: tokens and faults under the caret
- `parse_error_points_at_text`: errors about a piece of text
- `parse_error_at_end`: errors about the end of the source text
-/

namespace Script

/-! ## Excerpts -/

/-- The text is a line, and below it a caret behind a number of blanks. -/
def DrawsCaret (shown : String) (upper : List Char) (indent : Nat) : Prop :=
  '\n' ∉ upper ∧ shown.toList = '\n' :: (upper ++ '\n' :: (List.replicate indent ' ' ++ ['^']))

/-- Both lines of an excerpt start with four blanks. -/
theorem Position.drawsCaret_excerpt (p : Position) {source : String}
    (hsome : (p.inSource source).sourceLine ≠ "") :
    DrawsCaret (p.inSource source).excerpt
      (List.replicate 4 ' ' ++ (p.inSource source).sourceLine.toList) (4 + (p.column - 1)) := by
  constructor
  · simp [Text.not_mem_shownLine]
  · rw [excerpt, if_neg hsome, column_inSource, ← List.replicate_append_replicate]
    simp [List.replicate]

/-- The position is where the text stands in the source text. The line that is shown has the first
    character of the text at the column, and the caret is under that character. -/
structure Position.PointsAt (p : Position) (source : String) (text : List Char) : Prop where
  pointsInto : p.PointsInto source
  startOf : p.StartOf source text
  shown : ∃ c ∈ text.head?, p.sourceLine.toList[p.column - 1]? = some c
  caret : ∃ c ∈ text.head?, ∃ upper indent, DrawsCaret p.excerpt upper indent ∧
    upper[indent]? = some c

/-- The line of a place has all that stands in front of the place, and the character there, if the
    character is none that a line loses when it is shown. -/
theorem Position.StartOf.sourceLine_inSource {p : Position} {source : String} {c : Char}
    {tail : List Char} (h : p.StartOf source (c :: tail)) (hfeed : c ≠ '\n') (hreturn : c ≠ '\r') :
    ∃ before after, (p.inSource source).sourceLine.toList = before ++ c :: after ∧
      p.column = 1 + before.length := by
  obtain ⟨front, back, hsource, hline, hcolumn⟩ := h
  refine ⟨Text.lastLine front, Text.trimReturns (Text.firstLine (tail ++ back)), ?_, hcolumn⟩
  rw [Position.sourceLine_inSource, String.toList_ofList, hsource, hline, Nat.add_comm,
    Text.shownLine_append, List.cons_append, Text.firstLine_cons hfeed,
    Text.trimReturns_append_cons hreturn]

/-- A place where some text stands, if the first character of the text is not blank. -/
theorem Position.StartOf.pointsAt {p : Position} {source : String} {c : Char} {tail : List Char}
    (h : p.StartOf source (c :: tail)) (hblank : isBlank c = false) :
    (p.inSource source).PointsAt source (c :: tail) := by
  -- What is shown of a line stops at a line feed or at carriage returns, and both are blank.
  have hfeed : c ≠ '\n' := by
    intro hc
    rw [hc] at hblank
    cases hblank
  have hreturn : c ≠ '\r' := by
    intro hc
    rw [hc] at hblank
    cases hblank
  obtain ⟨before, after, hshown, hcolumn⟩ := h.sourceLine_inSource hfeed hreturn
  have hsome : (p.inSource source).sourceLine ≠ "" := by
    intro hempty
    rw [hempty] at hshown
    simp at hshown
  have hindent : p.column - 1 = before.length := by omega
  have hcaret := p.drawsCaret_excerpt hsome
  rw [hindent, hshown] at hcaret
  refine ⟨h.pointsInto (List.cons_ne_nil c tail), h, ⟨c, rfl, ?_⟩, ⟨c, rfl, _, _, hcaret, ?_⟩⟩
  · rw [Position.column_inSource, hindent, hshown, List.getElem?_append_right (Nat.le_refl _)]
    simp
  · -- The four blanks stand in front of both the line and the caret.
    rw [List.getElem?_append_right (by simp), List.getElem?_append_right (by simp)]
    simp

/-! ## Texts that errors are about -/

/-- A token or fault is under the caret. -/
theorem StandsAlone.pointsAt {source : String} {item : Except LexError Token}
    (halone : StandsAlone item) (hplaced : Placed source item) :
    ((itemPosition item).inSource source).PointsAt source (itemLexeme item) := by
  obtain ⟨c, tail, hlexeme, hblank, -⟩ := halone
  have hstart := hplaced.startOf
  rw [hlexeme] at hstart ⊢
  exact hstart.pointsAt hblank

section Tokens

variable {source : String} {tokens : List Token} (hread : readTokens source = .ok tokens)
  {token : Token} (htoken : token ∈ tokens)

include hread htoken

/-- The position of a token that was read points at its lexeme. -/
private theorem pointsAt_of_readTokens :
    (token.position.inSource source).PointsAt source token.lexeme.toList :=
  (standsAlone_of_readTokens hread htoken).pointsAt (placed_of_readTokens hread htoken)

/-- A token is read from its lexeme. -/
private theorem reads_of_readTokens :
    Pattern.Reads token.lexeme.toList (.ok token.kind) token.lexeme.toList := by
  obtain ⟨c, tail, hlexeme, -, hscan⟩ := standsAlone_of_readTokens hread htoken
  have hreads := Pattern.reads_scan c tail
  rw [hscan, ← hlexeme] at hreads
  exact hreads

/-- The position of a keyword that was read points at the keyword. -/
private theorem pointsAt_of_keyword {word : Keyword} (hkind : token.kind = .keyword word) :
    (token.position.inSource source).PointsAt source word.spelling.toList := by
  have hreads := reads_of_readTokens hread htoken
  rw [hkind] at hreads
  rw [← hreads.keyword_lexeme]
  exact pointsAt_of_readTokens hread htoken

/-- The position of a sign that was read points at the sign. -/
private theorem pointsAt_of_symbol {sign : Symbol} (hkind : token.kind = .symbol sign) :
    (token.position.inSource source).PointsAt source sign.spelling.toList := by
  have hreads := reads_of_readTokens hread htoken
  rw [hkind] at hreads
  rw [← hreads.symbol_lexeme]
  exact pointsAt_of_readTokens hread htoken

end Tokens

/-- The error is about a piece of text, and not about the end of the tokens or about nesting. -/
def SourceError.AboutText : SourceError → Prop
  | .lex _ => True
  | .parse e => (∀ expected, e.fault ≠ .unexpectedEnd expected) ∧ e.fault ≠ .nestingTooDeep

/-- The text that an error is about: a lexeme, a token that stands between quotes in the message, or
    the first token of what is wrong. -/
inductive SourceError.Concerns : SourceError → List Char → Prop where
  | lexeme (e : LexError) : Concerns (.lex e) e.lexeme.toList
  | unexpected {expected : Expectation} {text : String} {position : Position} :
      Concerns (.parse ⟨.unexpectedToken expected ("'" ++ text ++ "'"), position⟩) text.toList
  | duplicateDefault {position : Position} :
      Concerns (.parse ⟨.duplicateDefaultCase, position⟩) ['_']
  | nestedFunction {name : String} {position : Position} :
      Concerns (.parse ⟨.nestedFunction name, position⟩) ['f', 'u', 'n']
  | duplicateParameter {function name : String} {position : Position} :
      Concerns (.parse ⟨.duplicateParameter function name, position⟩) ['f', 'u', 'n']

/-- An error of the grammar about a piece of text points at it. -/
private theorem ParseError.About.concerns {source : String} {tokens rest : List Token}
    {e : ParseError} (h : e.About tokens rest) (hread : readTokens source = .ok tokens)
    (htext : SourceError.AboutText (.parse e)) :
    ∃ text, SourceError.Concerns (.parse (e.inSource source)) text ∧
      (e.inSource source).position.PointsAt source text := by
  cases h with
  | unexpected expected htoken => exact ⟨_, .unexpected, pointsAt_of_readTokens hread htoken⟩
  | ended expected => exact absurd rfl (htext.1 expected)
  | duplicateDefault htoken hkind =>
    exact ⟨_, .duplicateDefault, pointsAt_of_symbol hread htoken hkind⟩
  | nestedFunction name htoken hkind =>
    exact ⟨_, .nestedFunction, pointsAt_of_keyword hread htoken hkind⟩
  | duplicateParameter function name htoken hkind =>
    exact ⟨_, .duplicateParameter, pointsAt_of_keyword hread htoken hkind⟩
  | tooDeep _ _ => exact absurd rfl htext.2
  | tooDeepAtEnd _ => exact absurd rfl htext.2

/-- An error about a piece of text points at it: the text stands at the line and column, the column
    exists on the line that is shown, and the caret is under the first character of the text. -/
theorem parse_error_points_at_text {source : String} {e : SourceError}
    (h : parse source = .error e) (htext : e.AboutText) :
    ∃ text, e.Concerns text ∧ e.position.PointsAt source text := by
  rcases parse_error_iff.mp h with
    ⟨fault, hread, rfl⟩ | ⟨tokens, fault, rest, hread, hprogram, rfl⟩
  · have hplaced := placed_of_readTokens_error hread
    have hpoints := (standsAlone_of_readTokens_error hread).pointsAt hplaced
    rw [itemPosition, hplaced.shows fault rfl] at hpoints
    exact ⟨_, .lexeme fault, hpoints⟩
  · rw [SourceError.AboutText, ParseError.fault_inSource] at htext
    exact (Grammar.about_of_program_error hprogram).concerns hread htext

/-- A plus sign with nothing in front of it, behind a string that goes on to a second line, with
    characters outside of ASCII on both lines. -/
theorem parse_error_points_at_text_behind_string :
    let source := "var s = \"é\nü\"; +;"
    let e : SourceError :=
      .parse ⟨.unexpectedToken .expression "'+'", ⟨2, 5, "ü\"; +;"⟩⟩
    parse source = .error e ∧ ∃ text, e.Concerns text ∧ e.position.PointsAt source text := by
  intro source e
  have htokens : readTokens source = .ok
      [⟨.keyword .kwVar, "var", 1, 1⟩, ⟨.identifier "s", "s", 1, 5⟩, ⟨.symbol .assign, "=", 1, 7⟩,
        ⟨.literal (.string "é\nü"), "\"é\nü\"", 1, 9⟩, ⟨.symbol .semicolon, ";", 2, 3⟩,
        ⟨.symbol .plus, "+", 2, 5⟩, ⟨.symbol .semicolon, ";", 2, 6⟩] := by decide +kernel
  have hparse : parse source = .error e :=
    parse_error_iff.mpr (.inr ⟨_, _, _, htokens, rfl, by decide +kernel⟩)
  exact ⟨hparse, parse_error_points_at_text hparse ⟨nofun, nofun⟩⟩

/-! ## The end of a source text -/

/-- An error about the end is moved there, wherever the grammar has reported it. -/
private theorem position_of_unexpectedEnd {source : String} {expected : Expectation}
    {position : Position} (h : parse source = .error (.parse ⟨.unexpectedEnd expected, position⟩)) :
    position = (ParseError.endOf source).inSource source := by
  rcases parse_error_iff.mp h with ⟨fault, -, he⟩ | ⟨tokens, fault, rest, -, -, he⟩
  · cases he
  · have hfault := fault.fault_inSource source
    rw [← SourceError.parse.inj he] at hfault
    rw [ParseError.inSource, ← hfault] at he
    cases he
    rfl

/-- The column of the end is behind all characters of the last line, and the carriage returns at the
    end of that line are not shown. -/
private theorem ParseError.endOf_behind_returns (source : String) :
    ∃ k, (Text.lines source.toList).getLast?.getD [] =
        ((endOf source).inSource source).sourceLine.toList ++ List.replicate k '\r' ∧
      (endOf source).column = 1 + ((endOf source).inSource source).sourceLine.length + k ∧
      (k = 0 ↔ ¬ Text.EndsInReturn source.toList) := by
  have hshown : ((endOf source).inSource source).sourceLine.toList =
      Text.trimReturns ((Text.lines source.toList).getLast?.getD []) := by
    rw [Position.sourceLine_inSource, String.toList_ofList]
    exact Text.shownLine_length_lines _
  obtain ⟨k, hlast, hzero⟩ :=
    Text.exists_eq_trimReturns_append ((Text.lines source.toList).getLast?.getD [])
  rw [← hshown] at hlast
  refine ⟨k, hlast, ?_, ?_⟩
  · -- The column counts the last line before the trimming.
    have hlength := congrArg List.length hlast
    rw [List.length_append, List.length_replicate, String.length_toList] at hlength
    show ((Text.lines source.toList).getLast?.getD []).length + 1 = _
    omega
  · rw [hzero, ne_eq, Text.getLast?_getLast?_lines_iff]

/-- An error about the end of the source text is on the last line, and its column is behind all
    characters of that line. So the caret is directly behind what is shown exactly if the line does
    not end in carriage returns, and as many columns further to the right as there are. -/
theorem parse_error_at_end {source : String} {expected : Expectation} {position : Position}
    (h : parse source = .error (.parse ⟨.unexpectedEnd expected, position⟩)) :
    position.line = max 1 (Text.lines source.toList).length ∧
      (position.column = 1 + position.sourceLine.length ↔ ¬ Text.EndsInReturn source.toList) ∧
      ∃ k, (Text.lines source.toList).getLast?.getD [] =
          position.sourceLine.toList ++ List.replicate k '\r' ∧
        position.column = 1 + position.sourceLine.length + k ∧
        (position.sourceLine ≠ "" → ∃ upper, DrawsCaret position.excerpt upper (upper.length + k) ∧
          position.sourceLine.toList <:+ upper) := by
  obtain rfl := position_of_unexpectedEnd h
  obtain ⟨k, hlast, hcolumn, hzero⟩ := ParseError.endOf_behind_returns source
  rw [Position.line_inSource, Position.column_inSource]
  refine ⟨rfl, ?_, k, hlast, hcolumn, fun hsome => ?_⟩
  · rw [← hzero]
    omega
  · -- The caret stands under the column, which counts what is missing from the line shown.
    have hcaret := (ParseError.endOf source).drawsCaret_excerpt hsome
    have hindent : 4 + ((ParseError.endOf source).column - 1) =
        (List.replicate 4 ' ' ++
          ((ParseError.endOf source).inSource source).sourceLine.toList).length + k := by
      rw [List.length_append, List.length_replicate, String.length_toList]
      omega
    rw [hindent] at hcaret
    exact ⟨_, hcaret, List.suffix_append _ _⟩

/-- A call without its closing parenthesis, with a line end of two characters on the last line: all
    characters of the line are shown. -/
theorem parse_error_at_end_open_call :
    let source := "f(1,\n  2\r\n"
    let position : Position := ⟨2, 4, "  2"⟩
    parse source = .error (.parse ⟨.unexpectedEnd (.commaOr .rightParen), position⟩) ∧
      ¬ Text.EndsInReturn source.toList ∧ position.column = 1 + position.sourceLine.length := by
  intro source position
  have htokens : readTokens source = .ok
      [⟨.identifier "f", "f", 1, 1⟩, ⟨.symbol .leftParen, "(", 1, 2⟩,
        ⟨.literal (.integer 1), "1", 1, 3⟩, ⟨.symbol .comma, ",", 1, 4⟩,
        ⟨.literal (.integer 2), "2", 2, 3⟩] := by decide +kernel
  have hparse :
      parse source = .error (.parse ⟨.unexpectedEnd (.commaOr .rightParen), position⟩) :=
    parse_error_iff.mpr (.inr ⟨_, _, _, htokens, rfl, by decide +kernel⟩)
  have hend : ¬ Text.EndsInReturn source.toList := by decide +kernel
  exact ⟨hparse, hend, (parse_error_at_end hparse).2.1.mpr hend⟩

/-- A sum without its second part, and a carriage return behind it that is not shown: the caret is
    one column too far to the right. -/
theorem not_directly_behind_shown_line :
    ∃ expected position, parse "1 +\r" = .error (.parse ⟨.unexpectedEnd expected, position⟩) ∧
      position.column = 5 ∧ position.sourceLine = "1 +" ∧
      position.column ≠ 1 + position.sourceLine.length := by
  have htokens : readTokens "1 +\r" = .ok
      [⟨.literal (.integer 1), "1", 1, 1⟩, ⟨.symbol .plus, "+", 1, 3⟩] := by decide +kernel
  have hparse : parse "1 +\r" = .error (.parse ⟨.unexpectedEnd .expression, ⟨1, 5, "1 +"⟩⟩) :=
    parse_error_iff.mpr (.inr ⟨_, _, _, htokens, rfl, by decide +kernel⟩)
  exact ⟨_, _, hparse, rfl, rfl, by decide +kernel⟩

end Script
