import Script.Proofs.LexemeSplit
import Script.Proofs.TextLines

/-!
# Positions of tokens and cursors

A cursor keeps the line that it has reached and the start of that line, and changes them only where
it passes line feeds: in blank text, in strings and in characters in quotes. `Cursor.Tracks` says
that both are right for the text that has been passed, and every step of reading keeps it so. The
lines and columns of tokens and faults, counted from what the cursor keeps or from the start of the
text, are then those of the places where their lexemes start.

## Key results

- `Cursor.Tracks.passBlank` / `Cursor.Tracks.passLexeme`: the steps keep the line
- `Cursor.Tracks.locate`: the line and column of any place that has been passed
- `calls_locate_text`: what every call of `next` reports, and where it leads
-/

namespace Script

/-! ## The lines and columns of places -/

namespace Text

/-- The line of a place, counted from one. -/
def lineAt (text : List Char) (offset : Nat) : Nat :=
  1 + (text.take offset).count '\n'

/-- The column of a place, counted from one in the characters behind the last line feed in front of
    the place. -/
def columnAt (text : List Char) (offset : Nat) : Nat :=
  1 + (lastLine (text.take offset)).length

/-- The whole line that a place is on. -/
def lineTextAt (text : List Char) (offset : Nat) : List Char :=
  lastLine (text.take offset) ++ firstLine (text.drop offset)

/-- The place where the last line starts has the line of the end, and places behind it are counted
    from there. -/
private theorem lineAt_columnAt_of_le (text : List Char) {k : Nat} (hk : k ≤ text.length)
    (hle : text.length ≤ k + (lastLine text).length) :
    lineAt text k = 1 + text.count '\n' ∧
      columnAt text k + (text.length - k) = 1 + (lastLine text).length := by
  obtain ⟨front, htext, hfront⟩ := exists_eq_append_lastLine text
  have hlen : text.length = front.length + (lastLine text).length := by
    simpa using congrArg List.length htext
  -- The place cuts the last line, which has no line feeds
  have htake : text.take k = front ++ (lastLine text).take (k - front.length) := by
    have := congrArg (List.take k) htext
    rw [this, List.take_append, List.take_of_length_le (by omega)]
  have hnot : '\n' ∉ (lastLine text).take (k - front.length) :=
    fun h => not_mem_lastLine text (List.mem_of_mem_take h)
  have hcount : text.count '\n' = front.count '\n' := by
    have := congrArg (List.count '\n') htext
    rw [List.count_append, List.count_eq_zero.mpr (not_mem_lastLine text)] at this
    simpa using this
  refine ⟨?_, ?_⟩
  · rw [lineAt, htake, List.count_append, List.count_eq_zero.mpr hnot, hcount, Nat.add_zero]
  · rw [columnAt, htake, lastLine_append_of_not_mem _ hnot, hfront, List.nil_append,
      List.length_take]
    omega

end Text

/-- Where a token or fault says that it starts. -/
def itemPosition : Except LexError Token → Position
  | .ok token => token.position
  | .error error => error.position

/-- The cursor after a number of calls of `next`. -/
def Cursor.afterCalls (cur : Cursor) : Nat → Cursor
  | 0 => cur
  | n + 1 => (cur.afterCalls n).next.2

/-- What is reported stands where the cursor locates its start. -/
private theorem Cursor.itemPosition_report (cur : Cursor) (start : Mark) (s : Scan) :
    (itemPosition (cur.report start s)).line = (cur.locate start).line ∧
      (itemPosition (cur.report start s)).column = (cur.locate start).column := by
  simp only [report]
  split <;> exact ⟨rfl, rfl⟩

/-! ## Line feeds in lexemes -/

/-- A run of characters has no line feeds if none belongs to it. -/
private theorem feed_not_mem_takeWhile {p : Char → Bool} (hp : p '\n' = false)
    (text : List Char) : '\n' ∉ text.takeWhile p := by
  intro h
  have := List.mem_takeWhile_imp h
  simp [hp] at this

/-- A number has no line feeds in it. -/
private theorem feed_not_mem_scanNumber {c : Char} (rest : List Char) (hc : c ≠ '\n') :
    '\n' ∉ (scanNumber c rest).lexeme := by
  have hdigits := feed_not_mem_takeWhile (p := Char.isDigit) (by decide)
  simp only [scanNumber]
  split <;> simp [hdigits, Ne.symm hc]

/-- A symbol, or a character that starts no token, has no line feeds in it. -/
private theorem feed_not_mem_scanSymbol {c : Char} (rest : List Char) (hc : c ≠ '\n') :
    '\n' ∉ (scanSymbol c rest).lexeme := by
  simp only [scanSymbol]
  split
  · rename_i sign d more hpair
    simp only [List.head?_cons, Option.bind_some] at hpair
    -- A line feed is the second character of no symbol
    have hd : d ≠ '\n' := by
      rintro rfl
      simp [Symbol.ofPair?] at hpair
    simp [Ne.symm hc, Ne.symm hd]
  · split <;> simp [Ne.symm hc]

/-- A character in quotes has a line feed in it only as its character. -/
private theorem feed_mem_scanChar {rest : List Char} (h : '\n' ∈ (scanChar rest).lexeme) :
    ∃ more, (scanChar rest).lexeme = '\'' :: '\n' :: more ∧ '\n' ∉ more := by
  revert h
  fun_cases scanChar rest with
  | case1 => simp
  | case2 more => simp
  | case3 c more _ =>
    intro h
    obtain rfl : '\n' = c := by simpa using h
    exact ⟨['\''], rfl, by simp⟩
  | case4 c more _ _ =>
    intro h
    obtain rfl : '\n' = c := by simpa using h
    exact ⟨[], rfl, by simp⟩

/-- Only strings and characters in quotes have line feeds in them, and the latter only as their
    character. -/
private theorem feed_mem_scan {c : Char} {rest : List Char} (hc : c ≠ '\n')
    (h : '\n' ∈ (scan c rest).lexeme) :
    (∃ more, (scan c rest).lexeme = '"' :: more) ∨
      ∃ more, (scan c rest).lexeme = '\'' :: '\n' :: more ∧ '\n' ∉ more := by
  revert h
  -- Words, numbers and signs have no line feed; a string has its quote in front, and a character
  -- literal may be the line feed itself.
  simp only [scan]
  split
  · have hword := feed_not_mem_takeWhile (p := isWordRest) (by decide) rest
    simp [Ne.symm hc, hword]
  split
  · exact fun h => absurd h (feed_not_mem_scanNumber rest hc)
  split
  · intro _
    left
    simp only [scanString]
    split <;> exact ⟨_, rfl⟩
  split
  · exact fun h => .inr (feed_mem_scanChar h)
  · exact fun h => absurd h (feed_not_mem_scanSymbol rest hc)

/-- A lexeme without line feeds leads further on the same line. -/
private theorem Cursor.passLexeme_of_not_mem (cur : Cursor) {lexeme : List Char}
    (h : '\n' ∉ lexeme) :
    cur.passLexeme lexeme = cur.advance lexeme.length := by
  simp only [passLexeme]
  split
  · rw [if_neg h]
  · simp at h
  · rfl

/-! ## What a cursor keeps -/

/-- The cursor has passed `before`, and knows its line and where that line starts. -/
structure Cursor.Tracks (source : String) (before : List Char) (cur : Cursor) : Prop where
  source_eq : cur.source = source
  text : source.toList = before ++ cur.here.text
  offset : cur.here.offset = before.length
  line : cur.line = 1 + before.count '\n'
  lineStart : cur.lineStart.offset + (Text.lastLine before).length = before.length
  lineStart_text : cur.lineStart.text = Text.lastLine before ++ cur.here.text

namespace Cursor.Tracks

variable {source : String} {before : List Char} {cur : Cursor}

/-- At the start, nothing has been passed. -/
theorem start (source : String) : Tracks source [] (.start source) :=
  ⟨rfl, rfl, rfl, rfl, rfl, rfl⟩

/-- Text without line feeds leads further on the same line. -/
theorem advance (h : Tracks source before cur) {piece rest : List Char}
    (htext : cur.here.text = piece ++ rest) (hnot : '\n' ∉ piece) :
    Tracks source (before ++ piece) (cur.advance piece.length) := by
  -- The line that the cursor stands on goes on, since the piece has no line feed.
  have hlast := Text.lastLine_append_of_not_mem before hnot
  have hrest : (cur.advance piece.length).here.text = rest := by
    simp [Cursor.advance, Mark.ahead, htext]
  refine ⟨h.source_eq, ?_, ?_, ?_, ?_, ?_⟩
  · rw [hrest, h.text, htext, List.append_assoc]
  · simp [Cursor.advance, Mark.ahead, h.offset]
  · rw [List.count_append, List.count_eq_zero.mpr hnot]
    exact h.line
  · have := h.lineStart
    simp only [Cursor.advance, hlast, List.length_append]
    omega
  · rw [hrest, hlast, List.append_assoc, ← htext]
    exact h.lineStart_text

/-- Text with line feeds leads to the line behind the last of them. -/
theorem startLine (h : Tracks source before cur) {piece rest : List Char}
    (htext : cur.here.text = piece ++ rest) (hmem : '\n' ∈ piece) :
    Tracks source (before ++ piece)
      ((cur.advance piece.length).startLine (piece.count '\n')
        (cur.here.ahead (piece.length - (Text.lastLine piece).length))) := by
  -- The line that the cursor stands on is now the last one of the piece.
  have hlast := Text.lastLine_append_of_mem before hmem
  obtain ⟨front, hpiece, -⟩ := Text.exists_eq_append_lastLine piece
  have hlen : piece.length = front.length + (Text.lastLine piece).length := by
    simpa using congrArg List.length hpiece
  refine ⟨h.source_eq, ?_, ?_, ?_, ?_, ?_⟩
  · simp [Cursor.startLine, Cursor.advance, Mark.ahead, htext, h.text]
  · simp [Cursor.startLine, Cursor.advance, Mark.ahead, h.offset]
  · simp only [Cursor.startLine, Cursor.advance, h.line, List.count_append]
    omega
  · simp only [Cursor.startLine, Cursor.advance, Mark.ahead, hlast, List.length_append, h.offset]
    omega
  · have hfront : piece.length - (Text.lastLine piece).length = front.length := by omega
    have hdrop : (piece ++ rest).drop front.length = Text.lastLine piece ++ rest := by
      conv => lhs; rw [hpiece, List.append_assoc]
      exact List.drop_left
    simp only [Cursor.startLine, Cursor.advance, Mark.ahead, hlast, htext, hfront, hdrop]
    rw [List.drop_left]

/-- A blank character is passed with its line feed. -/
theorem passBlank (h : Tracks source before cur) {c : Char} {rest : List Char}
    (htext : cur.here.text = c :: rest) :
    Tracks source (before ++ [c]) (cur.passBlank c) := by
  by_cases hc : c = '\n'
  · subst hc
    exact h.startLine (show cur.here.text = ['\n'] ++ rest from htext) (by simp)
  · rw [Cursor.passBlank, if_neg hc]
    exact h.advance (show cur.here.text = [c] ++ rest from htext) (by simp [Ne.symm hc])

/-- Blank text is passed one character after the other. -/
theorem foldl_passBlank (h : Tracks source before cur) {blank rest : List Char}
    (htext : cur.here.text = blank ++ rest) :
    Tracks source (before ++ blank) (blank.foldl Cursor.passBlank cur) := by
  induction blank generalizing before cur with
  | nil => simpa using h
  | cons c more ih =>
    have hstep := h.passBlank htext
    have hrest : (cur.passBlank c).here.text = more ++ rest := by
      simp [Mark.ahead, htext]
    rw [List.foldl_cons, List.append_cons]
    exact ih hstep hrest

/-- Blank text is passed line by line. -/
theorem skipBlank (h : Tracks source before cur) :
    ∃ blank, Tracks source (before ++ blank) cur.skipBlank :=
  ⟨_, h.foldl_passBlank (List.prefix_iff_eq_append.mp (leadingBlank_front false _)).symm⟩

/-- A lexeme is passed with all its line feeds. -/
theorem passLexeme (h : Tracks source before cur) {c : Char} {rest : List Char}
    (htext : cur.here.text = c :: rest) (hc : c ≠ '\n') :
    Tracks source (before ++ (scan c rest).lexeme) (cur.passLexeme (scan c rest).lexeme) := by
  have hlex : cur.here.text =
      (scan c rest).lexeme ++ (cur.passLexeme (scan c rest).lexeme).here.text :=
    htext.trans (append_here_passLexeme htext).symm
  by_cases hmem : '\n' ∈ (scan c rest).lexeme
  · have hpass := h.startLine hlex hmem
    rcases feed_mem_scan hc hmem with ⟨more, hs⟩ | ⟨more, hs, hmore⟩
    · rw [hs] at hmem hpass ⊢
      simpa only [Cursor.passLexeme, if_pos hmem] using hpass
    · -- The line feed is the second character, and the next line starts behind it
      have hcount : ('\'' :: '\n' :: more).count '\n' = 1 := by
        simp [List.count_eq_zero.mpr hmore]
      have hlast : Text.lastLine ('\'' :: '\n' :: more) = more := by
        have := Text.lastLine_append_of_not_mem ['\'', '\n'] hmore
        simpa [Text.lastLine] using this
      have hlen : ('\'' :: '\n' :: more).length - more.length = 2 := by
        simp only [List.length_cons]; omega
      rw [hs, hcount, hlast, hlen] at hpass
      rw [hs]
      simpa [Cursor.passLexeme] using hpass
  · rw [passLexeme_of_not_mem cur hmem]
    exact h.advance hlex hmem

/-- The line and column of a place that has been passed are found from what the cursor keeps, or
    counted from the start of the text if the place is on a line further up. -/
theorem locate (h : Tracks source before cur) (place : Mark)
    (hp : place.offset ≤ before.length) :
    cur.locate place =
      { line := Text.lineAt source.toList place.offset,
        column := Text.columnAt source.toList place.offset } := by
  have htake : source.toList.take place.offset = before.take place.offset := by
    rw [h.text, List.take_append_of_le_length hp]
  have hstart := h.lineStart
  simp only [Cursor.locate]
  -- The place is on the line of the cursor, or its line is counted from the start of the source.
  split
  · rename_i hle
    obtain ⟨hline, hcolumn⟩ := Text.lineAt_columnAt_of_le before hp (by omega)
    simp only [Text.lineAt, Text.columnAt] at hline hcolumn
    simp only [Text.lineAt, Text.columnAt, htake, h.line, hline, Position.mk.injEq, and_true,
      true_and]
    omega
  · simp only [h.source_eq, htake, Text.lineAt, Text.columnAt, Nat.add_comm 1]

/-- What one call of `next` does: it skips blank text and then is at the end, or passes a lexeme and
    reports it with the line and column of its start. -/
theorem next (h : Tracks source before cur) :
    ∃ blank, Tracks source (before ++ blank) cur.skipBlank ∧
      (cur.skipBlank.here.text = [] ∧ cur.next = (none, cur.skipBlank) ∨
        ∃ item, cur.next.1 = some item ∧
          Tracks source (before ++ blank ++ itemLexeme item) cur.next.2 ∧
          (itemPosition item).line = Text.lineAt source.toList (before ++ blank).length ∧
          (itemPosition item).column = Text.columnAt source.toList (before ++ blank).length) := by
  obtain ⟨blank, hskip⟩ := h.skipBlank
  refine ⟨blank, hskip, ?_⟩
  cases htext : cur.skipBlank.here.text with
  | nil => exact .inl ⟨rfl, next_of_blank htext⟩
  | cons c rest =>
    right
    -- A lexeme does not start with a line feed, which is blank and would have been skipped.
    have hc : c ≠ '\n' := by
      rintro rfl
      rw [here_skipBlank] at htext
      have := isBlank_of_drop_leadingBlank false htext
      simp [isBlank] at this
    have hpass := hskip.passLexeme htext hc
    have hlocate := hpass.locate cur.skipBlank.here (by simp [hskip.offset])
    obtain ⟨hline, hcolumn⟩ := itemPosition_report
      (cur.skipBlank.passLexeme (scan c rest).lexeme) cur.skipBlank.here (scan c rest)
    refine ⟨_, by rw [next_of_lexeme htext], ?_, ?_, ?_⟩
    · rw [next_of_lexeme htext, itemLexeme_report]
      exact hpass
    · rw [hline, hlocate, hskip.offset]
    · rw [hcolumn, hlocate, hskip.offset]

/-- Every call leads from text that has been passed to more of it. -/
theorem next_tracks (h : Tracks source before cur) :
    ∃ piece, Tracks source (before ++ piece) cur.next.2 := by
  obtain ⟨blank, hskip, hend | ⟨item, -, hitem, -⟩⟩ := h.next
  · exact ⟨blank, by rw [hend.2]; exact hskip⟩
  · exact ⟨blank ++ itemLexeme item, by rw [← List.append_assoc]; exact hitem⟩

/-- However many calls there have been, the cursor knows its line. -/
private theorem afterCalls (h : Tracks source before cur) (n : Nat) :
    ∃ passed, Tracks source passed (cur.afterCalls n) := by
  induction n with
  | zero => exact ⟨before, h⟩
  | succ n ih =>
    obtain ⟨passed, hpassed⟩ := ih
    obtain ⟨piece, hpiece⟩ := hpassed.next_tracks
    exact ⟨passed ++ piece, hpiece⟩

/-- The line and column of the cursor itself are those of the end of the text that has been
    passed. -/
private theorem line_column (h : Tracks source before cur) :
    cur.line = Text.lineAt source.toList cur.here.offset ∧
      cur.column = Text.columnAt source.toList cur.here.offset := by
  refine ⟨?_, ?_⟩
  · rw [h.line, Text.lineAt, h.text, h.offset, List.take_left]
  · rw [Cursor.column, h.locate cur.here (by rw [h.offset])]

/-- The line of the cursor, as the cursor shows it and as a position with its number shows it. -/
theorem lineText (h : Tracks source before cur) (column : Nat) :
    cur.lineText =
        String.ofList (Text.trimReturns (Text.lineTextAt source.toList cur.here.offset)) ∧
      (Position.inSource { line := cur.line, column := column } source).sourceLine =
        cur.lineText := by
  have hown : cur.lineText = String.ofList
      (Text.trimReturns (Text.lastLine before ++ Text.firstLine cur.here.text)) := by
    rw [Cursor.lineText, h.lineStart_text,
      Text.firstLine_append_of_not_mem (Text.not_mem_lastLine before)]
  refine ⟨?_, ?_⟩
  · rw [hown, Text.lineTextAt, h.text, h.offset, List.take_left, List.drop_left]
  · simp only [Position.inSource]
    rw [hown, h.line, h.text, Nat.add_comm, Text.shownLine_append]

end Cursor.Tracks

/-! ## All calls -/

/-- However many calls of `next` there have been on a source text, up to its end and past it: the
    line, the column and the line text of the cursor are those of the place that it has reached, the
    line text is also the one that a position with the number of the line gets from the source, and
    the next token or fault, if there is one, starts on the line and column of the place that its
    text has in the source. -/
theorem calls_locate_text (source : String) (n : Nat) :
    let text := source.toList
    let cur := (Cursor.start source).afterCalls n
    (cur.here.text = text.drop cur.here.offset ∧
      cur.line = Text.lineAt text cur.here.offset ∧
      cur.column = Text.columnAt text cur.here.offset ∧
      cur.lineText = String.ofList (Text.trimReturns (Text.lineTextAt text cur.here.offset)) ∧
      ∀ column, (Position.inSource { line := cur.line, column := column } source).sourceLine =
        cur.lineText) ∧
    (cur.next.1 = none → cur.next.2.here.offset = text.length) ∧
    ∀ item, cur.next.1 = some item → ∃ start,
      start + (itemLexeme item).length = cur.next.2.here.offset ∧
      itemLexeme item <+: text.drop start ∧
      (itemPosition item).line = Text.lineAt text start ∧
      (itemPosition item).column = Text.columnAt text start := by
  intro text cur
  -- After any number of calls the cursor tracks what has been passed, and everything follows from
  -- that.
  obtain ⟨before, h⟩ := (Cursor.Tracks.start source).afterCalls n
  obtain ⟨hline, hcolumn⟩ := h.line_column
  refine ⟨⟨?_, hline, hcolumn, (h.lineText 0).1, fun column => (h.lineText column).2⟩, ?_⟩
  · rw [h.offset, show text = before ++ cur.here.text from h.text, List.drop_left]
  -- The next call finds the end of the text, or an item behind the blank text.
  obtain ⟨blank, hskip, ⟨hend, hnext⟩ | ⟨item, hnext, hpass, hposition⟩⟩ := h.next
  · refine ⟨fun _ => ?_, fun item hitem => ?_⟩
    · have htext := hskip.text
      rw [hend, List.append_nil] at htext
      rw [hnext, hskip.offset, show text = before ++ blank from htext]
    · rw [hnext] at hitem
      exact nomatch hitem
  · refine ⟨fun hnone => ?_, fun item' hitem' => ?_⟩
    · rw [hnext] at hnone
      exact nomatch hnone
    · obtain rfl : item = item' := Option.some.inj (hnext.symm.trans hitem')
      refine ⟨(before ++ blank).length, ?_, ?_, hposition⟩
      · rw [hpass.offset, ← List.length_append]
      · rw [show text = _ from hpass.text, List.append_assoc, List.drop_left]
        exact List.prefix_append _ _

end Script
