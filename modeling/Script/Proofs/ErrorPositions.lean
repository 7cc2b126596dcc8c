import Script.Proofs.ParseFaults
import Script.Proofs.TokenReading

/-!
# Where errors point

The tokens and faults that a source text is read as stand at places of that text, where their
lexemes start. An error of a source text is a fault of its lexemes, or is about one of its tokens,
or is about its end. In the first two cases its position is a place of the text, and in the third
case it is moved behind the last line. One kind of error about the end is not moved: where one more
level of nesting would be opened that there is no room for, there is no token to point at, and the
position is `Position.nowhere`.

## Key results

- `Cursor.Tracks.placed_items`: everything that is read stands at a place of the text
- `ParseError.About.pointsInto`: errors about tokens, and about their end
- `parse_error_points_into_source`: errors point at a line of the source text, with one exception
-/

namespace Script

/-! ## Places of a source text -/

namespace Position

/-- The line of a position is not looked up in the source. -/
@[simp] theorem line_inSource (p : Position) (source : String) :
    (p.inSource source).line = p.line := by
  simp only [inSource]

/-- The column of a position is not looked up in the source. -/
@[simp] theorem column_inSource (p : Position) (source : String) :
    (p.inSource source).column = p.column := by
  simp only [inSource]

/-- The text of the line is taken from the source. -/
@[simp] theorem sourceLine_inSource (p : Position) (source : String) :
    (p.inSource source).sourceLine = String.ofList (Text.shownLine source.toList p.line) := by
  simp only [inSource]

/-- Looking the text of the line up again changes nothing. -/
@[simp] theorem inSource_inSource (p : Position) (source : String) :
    (p.inSource source).inSource source = p.inSource source := by
  simp only [inSource]

end Position

/-- The position is that of a place where `text` stands in the source text. -/
def Position.StartOf (p : Position) (source : String) (text : List Char) : Prop :=
  ∃ front back, source.toList = front ++ (text ++ back) ∧
    p.line = 1 + front.count '\n' ∧ p.column = 1 + (Text.lastLine front).length

/-- A token or fault stands where its lexeme does, and a fault shows the line of that place. -/
structure Placed (source : String) (item : Except LexError Token) : Prop where
  lexeme_ne_nil : itemLexeme item ≠ []
  startOf : (itemPosition item).StartOf source (itemLexeme item)
  shows : ∀ e, item = .error e → e.position.inSource source = e.position

namespace Cursor.Tracks

variable {source : String} {before : List Char} {cur : Cursor}

/-- What one call of `next` reports is at its place. -/
private theorem placed_next (h : Tracks source before cur) {item : Except LexError Token}
    (hitem : cur.next.1 = some item) : Placed source item := by
  obtain ⟨blank, hskip, ⟨-, hend⟩ | ⟨item', hitem', hpassed, hline, hcolumn⟩⟩ := h.next
  · rw [hend] at hitem
    cases hitem
  obtain rfl : item' = item := Option.some.inj (hitem'.symm.trans hitem)
  have htext := hpassed.text
  rw [List.append_assoc] at htext
  have hstart : (itemPosition item').StartOf source (itemLexeme item') := by
    refine ⟨before ++ blank, _, htext, ?_, ?_⟩
    · rw [hline, Text.lineAt, htext, List.take_left]
    · rw [hcolumn, Text.columnAt, htext, List.take_left]
  -- The rest is known from the lexeme that has been read.
  cases hread : cur.skipBlank.here.text with
  | nil =>
    rw [next_of_blank hread] at hitem
    cases hitem
  | cons c rest =>
    rw [next_of_lexeme hread] at hitem hpassed
    cases hitem
    refine ⟨?_, hstart, fun e he => ?_⟩
    · rw [itemLexeme_report]
      exact scan_lexeme_ne_nil c rest
    · simp only [report] at he
      split at he
      · cases he
      · cases he
        rw [hpassed.source_eq, Position.inSource_inSource]

/-- All tokens and faults are at their places, by induction on the number of calls. -/
theorem placed_items (h : Tracks source before cur) (n : Nat) :
    ∀ item ∈ cur.items n, Placed source item.1 := by
  induction n generalizing before cur with
  | zero => exact fun _ hitem => nomatch hitem
  | succ n ih =>
    intro item hitem
    obtain ⟨piece, hpiece⟩ := h.next_tracks
    cases hnext : cur.next with
    | mk found behind =>
      rw [hnext] at hpiece
      simp only [items, hnext] at hitem
      cases found with
      | none => cases hitem
      | some first =>
        -- The cursor behind the first item tracks as well, so that the others are placed too.
        rcases List.mem_cons.mp hitem with rfl | hitem
        · exact h.placed_next (by rw [hnext])
        · exact ih hpiece item hitem

end Cursor.Tracks

/-! ## Tokens and the first fault -/

/-- Every token that was read stands where its position says. -/
theorem placed_of_readTokens {source : String} {tokens : List Token}
    (h : readTokens source = .ok tokens) {token : Token} (htoken : token ∈ tokens) :
    Placed source (.ok token) := by
  obtain ⟨item, hitem, hok⟩ := exists_item_of_mem h token htoken
  rw [← hok]
  exact (Cursor.Tracks.start source).placed_items _ item hitem

/-- A fault of the lexer stands where its position says. -/
theorem placed_of_readTokens_error {source : String} {e : LexError}
    (h : readTokens source = .error e) : Placed source (.error e) := by
  obtain ⟨item, hitem, herror⟩ := exists_item_of_error h
  rw [← herror]
  exact (Cursor.Tracks.start source).placed_items _ item hitem

/-! ## Positions of errors -/

/-- A position on a line of the source text, both counted from one, that shows that line without
    the carriage returns at its end. An empty source text has one line to point at. -/
structure Position.PointsInto (p : Position) (source : String) : Prop where
  line_pos : 1 ≤ p.line
  line_le : p.line ≤ max 1 (Text.lines source.toList).length
  column_pos : 1 ≤ p.column
  shows : p.sourceLine =
    String.ofList (Text.trimReturns ((Text.lines source.toList)[p.line - 1]?.getD []))

/-- A place in front of some text is on a line. -/
theorem Position.StartOf.pointsInto {p : Position} {source : String} {text : List Char}
    (h : p.StartOf source text) (htext : text ≠ []) : (p.inSource source).PointsInto source := by
  obtain ⟨front, back, hsource, hline, hcolumn⟩ := h
  -- There is text behind the place, so that the line feeds in front of it are less than the lines.
  have hcount := Text.count_lt_length_lines front
    (List.append_ne_nil_of_left_ne_nil htext back)
  rw [← hsource] at hcount
  refine ⟨?_, ?_, ?_, ?_⟩
  · rw [Position.line_inSource]
    omega
  · rw [Position.line_inSource]
    omega
  · rw [Position.column_inSource]
    omega
  · rw [Position.sourceLine_inSource, Text.shownLine, Position.line_inSource]

/-- The end of a source text is on its last line. -/
private theorem ParseError.pointsInto_endOf (source : String) :
    ((endOf source).inSource source).PointsInto source := by
  refine ⟨?_, ?_, ?_, ?_⟩
  · exact Nat.le_max_left 1 _
  · exact Nat.le_refl _
  · exact Nat.le_add_left 1 _
  · rw [Position.sourceLine_inSource, Text.shownLine, Position.line_inSource]

/-- Reading stops because statements or expressions nest too deeply, and no token is left. -/
def EndsTooDeep (source : String) : Prop :=
  ∃ tokens position, readTokens source = .ok tokens ∧
    Grammar.program tokens = .error ⟨.nestingTooDeep, position⟩ []

/-- A source text is no program because of its lexemes or because of its tokens. -/
theorem parse_error_iff {source : String} {e : SourceError} :
    parse source = .error e ↔
      (∃ fault, readTokens source = .error fault ∧ e = .lex fault) ∨
        ∃ tokens fault rest, readTokens source = .ok tokens ∧
          Grammar.program tokens = .error fault rest ∧ e = .parse (fault.inSource source) := by
  unfold parse
  cases readTokens source with
  | error fault => simp [eq_comm]
  | ok tokens => cases hread : Grammar.program tokens <;> simp [hread, eq_comm]

namespace ParseError.About

variable {source : String} {tokens rest : List Token} {e : ParseError}

/-- Where no token is left, an error about nesting has none to point at. -/
private theorem eq_nowhere {position : Position} (h : About tokens [] ⟨.nestingTooDeep, position⟩) :
    position = .nowhere := by
  cases h with
  | tooDeep _ hhead => cases hhead
  | tooDeepAtEnd _ => rfl

/-- An error about a token points at it, and one about the end of the tokens behind the last
    line. -/
theorem pointsInto (h : e.About tokens rest) (hread : readTokens source = .ok tokens)
    (hnot : ¬ (e.fault = .nestingTooDeep ∧ rest = [])) :
    (e.inSource source).position.PointsInto source := by
  -- A position that is taken from a token points at the start of its lexeme.
  have hplace : ∀ token ∈ tokens, (token.position.inSource source).PointsInto source :=
    fun token htoken =>
      (placed_of_readTokens hread htoken).startOf.pointsInto
        (placed_of_readTokens hread htoken).lexeme_ne_nil
  cases h with
  | unexpected _ htoken => exact hplace _ htoken
  | ended _ => exact pointsInto_endOf source
  | duplicateDefault htoken _ => exact hplace _ htoken
  | nestedFunction _ htoken _ => exact hplace _ htoken
  | duplicateParameter _ _ htoken _ => exact hplace _ htoken
  | tooDeep htoken _ => exact hplace _ htoken
  | tooDeepAtEnd hrest => exact absurd ⟨rfl, hrest⟩ hnot

end ParseError.About

/-- A fault of the lexemes points at the lexeme. -/
private theorem pointsInto_of_readTokens_error {source : String} {e : LexError}
    (h : readTokens source = .error e) : e.position.PointsInto source := by
  have hplaced := placed_of_readTokens_error h
  rw [← hplaced.shows e rfl]
  exact hplaced.startOf.pointsInto hplaced.lexeme_ne_nil

/-- An error points at a line of the source text exactly if reading does not end too deep. If it
    does, the error is on line zero, and shows the first line. -/
theorem parse_error_points_into_source {source : String} {e : SourceError}
    (h : parse source = .error e) :
    (e.position.PointsInto source ↔ ¬ EndsTooDeep source) ∧
      (EndsTooDeep source → e = .parse ⟨.nestingTooDeep, Position.nowhere.inSource source⟩) := by
  have hdeep : EndsTooDeep source →
      e = .parse ⟨.nestingTooDeep, Position.nowhere.inSource source⟩ := by
    intro hends
    obtain ⟨tokens, position, hread, hprogram⟩ := hends
    -- With no token left, the position is not one of a token, and it is not moved to the end.
    obtain rfl := (Grammar.about_of_program_error hprogram).eq_nowhere
    rw [parse, hread] at h
    simp only [hprogram] at h
    cases h
    rfl
  refine ⟨⟨fun hpoints hends => ?_, fun hnot => ?_⟩, hdeep⟩
  · have hline := hpoints.line_pos
    rw [hdeep hends] at hline
    exact absurd hline (Nat.not_succ_le_zero 0)
  · rcases parse_error_iff.mp h with
      ⟨fault, hread, rfl⟩ | ⟨tokens, fault, rest, hread, hprogram, rfl⟩
    · exact pointsInto_of_readTokens_error hread
    · refine (Grammar.about_of_program_error hprogram).pointsInto hread fun hends => hnot ?_
      obtain ⟨kind, position⟩ := fault
      obtain ⟨rfl, rfl⟩ := hends
      exact ⟨tokens, position, hread, hprogram⟩

/-- A sum without its second part, on the second line, which ends in a carriage return. -/
theorem parse_error_points_into_source_sum :
    let position : Position := ⟨2, 6, " x + ;"⟩
    let e : ParseError := ⟨.unexpectedToken .expression "';'", position⟩
    parse "var x = 1;\n x + ;\r\n" = .error (.parse e) ∧
      position.PointsInto "var x = 1;\n x + ;\r\n" := by
  intro position e
  have htokens : readTokens "var x = 1;\n x + ;\r\n" = .ok
      [⟨.keyword .kwVar, "var", 1, 1⟩, ⟨.identifier "x", "x", 1, 5⟩, ⟨.symbol .assign, "=", 1, 7⟩,
        ⟨.literal (.integer 1), "1", 1, 9⟩, ⟨.symbol .semicolon, ";", 1, 10⟩,
        ⟨.identifier "x", "x", 2, 2⟩, ⟨.symbol .plus, "+", 2, 4⟩,
        ⟨.symbol .semicolon, ";", 2, 6⟩] := by decide +kernel
  have hparse : parse "var x = 1;\n x + ;\r\n" = .error (.parse e) :=
    parse_error_iff.mpr (.inr ⟨_, _, _, htokens, rfl, by decide +kernel⟩)
  -- The error is another one than too many levels, whether or not tokens are left.
  refine ⟨hparse, (parse_error_points_into_source hparse).1.mpr fun hends => ?_⟩
  obtain ⟨tokens, _, hread, hprogram⟩ := hends
  cases htokens.symm.trans hread
  cases hprogram

/-- Opening parentheses up to the limit of nesting, and nothing behind them: there is only one line,
    and the error is on line zero. -/
theorem not_pointsInto_of_open_parentheses :
    let source := String.ofList (List.replicate 63 '(')
    ∃ e, parse source = .error e ∧ e.position.line = 0 ∧ e.position.column = 0 ∧
      ¬ e.position.PointsInto source := by
  intro source
  have hzero : (match parse source with
      | .error e => e.position.line == 0 && e.position.column == 0
      | .ok _ => false) = true := by decide +kernel
  cases hparse : parse source with
  | ok program =>
    rw [hparse] at hzero
    cases hzero
  | error e =>
    simp only [hparse, Bool.and_eq_true, beq_iff_eq] at hzero
    refine ⟨e, rfl, hzero.1, hzero.2, fun hpoints => ?_⟩
    have hline := hpoints.line_pos
    omega

end Script
