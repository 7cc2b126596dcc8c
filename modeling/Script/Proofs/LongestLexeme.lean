import Mathlib.Data.List.Infix
import Script.Proofs.TokenPatterns
import Script.Proofs.TokenReading

/-!
# The longest lexeme

At each place the longest lexeme is read: no other piece of the text that starts there and is a
lexeme when it stands alone goes beyond it. The reason is that more text never shortens a lexeme: a
word, a number or a string goes on in it, and otherwise stays what it is.

## Key results

- `Pattern.scan_lexeme_grows`: more text never shortens a lexeme
- `Pattern.longest_scan`: so what is scanned is the longest lexeme
- `standsAlone_of_readTokens`: the lexemes of a source text are read alike when they stand alone
- `next_reads_longest_lexeme`: what one call of `next` answers
-/

namespace Script

namespace Pattern

/-- A lexeme at the start of a text that no other lexeme there goes beyond. -/
structure Longest (text lexeme : List Char) (result : Except LexFault TokenKind) : Prop where
  front : lexeme <+: text
  isLexeme : IsLexeme lexeme result
  longest : ∀ other result', other <+: text → IsLexeme other result' → other <+: lexeme

/-! ## Longer texts -/

/-- More text never shortens a run. -/
private theorem takeWhile_grows (p : Char → Bool) (text more : List Char) :
    text.takeWhile p <+: (text ++ more).takeWhile p := by
  rw [List.takeWhile_append]
  split
  · exact (List.takeWhile_prefix p).trans (List.prefix_append text _)
  · exact List.prefix_refl _

/-- The lexeme of a number only gets longer with more text behind it. -/
private theorem scanNumber_grows (d : Char) (rest more : List Char) :
    (scanNumber d rest).lexeme <+: (scanNumber d (rest ++ more)).lexeme := by
  obtain ⟨tail, after, rfl, hrun⟩ := Run.exists_split rest isDigit_iff
  by_cases hpoint : after.head? = some '.'
  · -- The point stays, and digits may be added to those behind it.
    obtain ⟨fraction, rfl⟩ := List.head?_eq_some_iff.mp hpoint
    have hdrop : ∀ text, (tail ++ '.' :: text).dropWhile Char.isDigit = '.' :: text := fun text =>
      Run.dropWhile_eq ⟨hrun.all, hrun.stops⟩ isDigit_iff
    have htake : ∀ text, (tail ++ '.' :: text).takeWhile Char.isDigit = tail := fun text =>
      Run.takeWhile_eq ⟨hrun.all, hrun.stops⟩ isDigit_iff
    rw [List.append_assoc, List.cons_append]
    simp only [scanNumber, hdrop, htake]
    simpa using takeWhile_grows _ fraction more
  · rw [scanNumber_of_run d hrun hpoint]
    cases after with
    | nil =>
      -- All of the text is digits, and the longer text starts with them.
      have hwhole : ∀ text, d :: text.takeWhile Char.isDigit <+: (scanNumber d text).lexeme := by
        intro text
        simp only [scanNumber]
        split <;> simp
      have htail := hrun.takeWhile_eq isDigit_iff
      have hgrows := takeWhile_grows Char.isDigit (tail ++ []) more
      rw [htail] at hgrows
      exact (List.cons_prefix_cons.mpr ⟨rfl, hgrows⟩).trans (hwhole _)
    | cons c after =>
      have hlonger : Run Digit tail (c :: (after ++ more)) := ⟨hrun.all, hrun.stops⟩
      rw [List.append_assoc, List.cons_append, scanNumber_of_run d hlonger hpoint]

/-- The lexeme of a string only gets longer with more text behind it. -/
private theorem scanString_grows (rest more : List Char) :
    (scanString rest).lexeme <+: (scanString (rest ++ more)).lexeme := by
  by_cases hquote : '"' ∈ rest
  · obtain ⟨body, after, rfl, hbody⟩ := List.eq_append_cons_of_mem hquote
    rw [List.append_assoc, List.cons_append, scanString_closed hbody, scanString_closed hbody]
  · -- Without a closing quote the lexeme is the whole text, and more text may close it later.
    rw [scanString_open hquote]
    by_cases hmore : '"' ∈ more
    · obtain ⟨body, after, rfl, hbody⟩ := List.eq_append_cons_of_mem hmore
      have hnot : '"' ∉ rest ++ body := by simp [hquote, hbody]
      rw [← List.append_assoc, scanString_closed hnot, List.append_assoc]
      simp
    · have hnot : '"' ∉ rest ++ more := by simp [hquote, hmore]
      rw [scanString_open hnot]
      simp

/-- The lexeme of a character literal only gets longer with more text behind it. -/
private theorem scanChar_grows (rest more : List Char) :
    (scanChar rest).lexeme <+: (scanChar (rest ++ more)).lexeme := by
  fun_cases scanChar rest with
  | case1 => fun_cases scanChar more <;> simp_all
  | case2 after => simp [scanChar]
  | case3 c after hc => simp [scanChar]
  | case4 c after hc hafter =>
    rw [List.cons_append]
    cases after ++ more with
    | nil => simp [scanChar]
    | cons d text => by_cases hd : d = '\'' <;> simp [scanChar, hd]

/-- The lexeme of a sign only gets longer with more text behind it. -/
private theorem scanSymbol_grows (c : Char) (rest more : List Char) :
    (scanSymbol c rest).lexeme <+: (scanSymbol c (rest ++ more)).lexeme := by
  cases rest with
  | nil =>
    have hone : (scanSymbol c []).lexeme = [c] := by
      simp only [scanSymbol, List.head?_nil, Option.bind_none]
      cases Symbol.ofChar? c <;> rfl
    rw [hone, List.nil_append]
    simp only [scanSymbol]
    split
    · simp
    · split <;> simp
  | cons d rest =>
    -- A symbol depends on the next character alone.
    simp only [scanSymbol, List.cons_append, List.head?_cons, Option.bind_some]
    cases Symbol.ofPair? c d <;> exact List.prefix_refl _

/-- More text never shortens a lexeme. -/
theorem scan_lexeme_grows (c : Char) (rest more : List Char) :
    (scan c rest).lexeme <+: (scan c (rest ++ more)).lexeme := by
  unfold scan
  split
  · exact List.cons_prefix_cons.mpr ⟨rfl, takeWhile_grows _ rest more⟩
  split
  · exact scanNumber_grows c rest more
  split
  · exact scanString_grows rest more
  split
  · exact scanChar_grows rest more
  · exact scanSymbol_grows c rest more

/-- The lexeme that is scanned is the longest one. -/
theorem longest_scan (c : Char) (rest : List Char) :
    Longest (c :: rest) (scan c rest).lexeme (scan c rest).result := by
  refine ⟨scan_lexeme_front c rest, (reads_scan c rest).alone, fun other result hfront hother => ?_⟩
  -- The other lexeme is what its own text is scanned as, and the rest of the text adds to it.
  obtain ⟨c', tail, rfl, hscan⟩ := hother.scan_eq
  obtain ⟨more, hmore⟩ := hfront
  obtain ⟨rfl, rfl⟩ := List.cons.inj hmore
  have hgrows := scan_lexeme_grows c' tail more
  rwa [hscan] at hgrows

end Pattern

/-! ## One call -/

/-- What a token or fault is. -/
def itemResult : Except LexError Token → Except LexFault TokenKind
  | .ok token => .ok token.kind
  | .error error => .error error.fault

/-- What is reported of a lexeme has the result of reading it. -/
private theorem itemResult_report (cur : Cursor) (start : Mark) (s : Scan) :
    itemResult (cur.report start s) = s.result := by
  obtain ⟨result, lexeme⟩ := s
  cases result <;> rfl

/-- The lexeme of a token or fault is read as the same one also when it stands alone. -/
def StandsAlone (item : Except LexError Token) : Prop :=
  ∃ c tail, itemLexeme item = c :: tail ∧ isBlank c = false ∧
    scan c tail = ⟨itemResult item, c :: tail⟩

namespace Cursor

/-- The item that is read next is read in the same way from its lexeme alone. -/
private theorem standsAlone_next {cur : Cursor} {item : Except LexError Token}
    (h : cur.next.1 = some item) : StandsAlone item := by
  cases hread : cur.skipBlank.here.text with
  | nil =>
    rw [next_of_blank hread] at h
    cases h
  | cons c rest =>
    rw [next_of_lexeme hread] at h
    obtain ⟨c', tail, hlexeme, hscan⟩ := (Pattern.reads_scan c rest).alone.scan_eq
    -- The lexeme starts with the character that reading starts at, and that one is not blank.
    have hfront := scan_lexeme_front c rest
    rw [hlexeme, List.cons_prefix_cons] at hfront
    obtain rfl := hfront.1
    have hblank := isBlank_of_drop_leadingBlank false ((text_skipBlank cur).symm.trans hread)
    obtain rfl := Option.some.inj h
    refine ⟨c', tail, ?_, hblank, ?_⟩
    · rw [itemLexeme_report, hlexeme]
    · rw [hscan, itemResult_report, hlexeme]

/-- All items are read in the same way from their lexemes alone. -/
private theorem standsAlone_items (cur : Cursor) (n : Nat) :
    ∀ item ∈ cur.items n, StandsAlone item.1 := by
  induction n generalizing cur with
  | zero => exact fun _ hitem => nomatch hitem
  | succ n ih =>
    intro item hitem
    cases hnext : cur.next with
    | mk found behind =>
      simp only [items, hnext] at hitem
      cases found with
      | none => cases hitem
      | some first =>
        rcases List.mem_cons.mp hitem with rfl | hitem
        · exact standsAlone_next (by rw [hnext])
        · exact ih behind item hitem

end Cursor

/-- Every token that was read is read in the same way from its lexeme alone. -/
theorem standsAlone_of_readTokens {source : String} {tokens : List Token}
    (h : readTokens source = .ok tokens) {token : Token} (htoken : token ∈ tokens) :
    StandsAlone (.ok token) := by
  obtain ⟨item, hitem, hok⟩ := exists_item_of_mem h token htoken
  rw [← hok]
  exact Cursor.standsAlone_items _ _ item hitem

/-- A fault of the lexer is found in the lexeme alone. -/
theorem standsAlone_of_readTokens_error {source : String} {e : LexError}
    (h : readTokens source = .error e) : StandsAlone (.error e) := by
  obtain ⟨item, hitem, herror⟩ := exists_item_of_error h
  rw [← herror]
  exact Cursor.standsAlone_items _ _ item hitem

/-- Reading goes on where no comment starts. -/
private theorem not_comment_of_drop_leadingBlank (inComment : Bool) (text : List Char) :
    ¬ ['/', '/'] <+: text.drop (leadingBlank inComment text).length := by
  -- Where skipping stops outside of a comment, the text does not start with two slashes.
  fun_induction leadingBlank inComment text with
  | case1 => simp
  | case2 d text ih => simpa using ih
  | case3 _ d text _ _ ih => simpa using ih
  | case4 _ d text _ _ _ ih => simpa using ih
  | case5 _ d text _ _ hcomment =>
    intro hfront
    obtain ⟨more, hmore⟩ := hfront
    simp only [List.length_nil, List.drop_zero] at hmore
    cases hmore
    simp at hcomment

/-- One call of `next` passes blank text and comments. If there is text behind them, it answers with
    the token or fault that the rules give for that text, and with no other, and the lexeme is the
    longest one that the text starts with. -/
theorem next_reads_longest_lexeme (cur : Cursor) :
    ∃ blank text, cur.here.text = blank ++ text ∧ Blank text blank ∧
      (∀ c ∈ text.head?, c ∉ [' ', '\t', '\r', '\x0c', '\n']) ∧ ¬ ['/', '/'] <+: text ∧
      match cur.next.1 with
      | none => text = []
      | some item =>
        (∀ result lexeme, Pattern.Reads text result lexeme ↔
          result = itemResult item ∧ lexeme = itemLexeme item) ∧
        Pattern.Longest text (itemLexeme item) (itemResult item) := by
  obtain ⟨blank, htext, hblank⟩ := cur.exists_blank_skipBlank
  have hdrop := congrArg Mark.text cur.here_skipBlank
  -- Reading starts where skipping has stopped: at no blank character and at no comment.
  refine ⟨blank, cur.skipBlank.here.text, htext, hblank, ?_, ?_, ?_⟩
  · intro c hc hmem
    obtain ⟨rest, hrest⟩ := List.head?_eq_some_iff.mp hc
    have hnot := isBlank_of_drop_leadingBlank false (hdrop.symm.trans hrest)
    rw [Pattern.isBlank_iff_mem.mpr hmem] at hnot
    cases hnot
  · rw [hdrop]
    exact not_comment_of_drop_leadingBlank false cur.here.text
  · cases hread : cur.skipBlank.here.text with
    | nil => rw [Cursor.next_of_blank hread]
    | cons c rest =>
      rw [Cursor.next_of_lexeme hread]
      simp only [itemResult_report, Cursor.itemLexeme_report]
      exact ⟨fun _ _ => Pattern.reads_iff, Pattern.longest_scan c rest⟩

end Script
