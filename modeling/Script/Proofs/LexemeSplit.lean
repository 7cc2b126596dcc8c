import Mathlib.Data.List.TakeWhile
import Script.Token.Cursor

/-!
# Tokens and faults cover a text

Reading token after token splits a source text without loss or overlap: every lexeme is the text
that stands where it was read, and between two lexemes there is only blank text. Reading ends,
since every lexeme has at least one character.

## Key results

- `scan_lexeme_front`: the lexeme that is read is the text in front of the cursor
- `blankFrom_leadingBlank`: the text that is skipped is blank, with comments up to the line feed
- `next_of_blank` / `next_of_lexeme`: what one call of `next` answers, and where it leads
- `reading_splits_source`: all calls together
-/

namespace Script

/-! ## What a split is -/

/-- Blank text in front of `after`: blank characters, and comments, which start with two slashes and
    run up to the next line feed or to the end of the whole text. -/
inductive Blank (after : List Char) : List Char → Prop where
  | nil : Blank after []
  | char {c : Char} {more : List Char} :
      c ∈ [' ', '\t', '\r', '\x0c', '\n'] → Blank after more → Blank after (c :: more)
  | comment {body more : List Char} :
      '\n' ∉ body → (more ++ after).head? = some '\n' ∨ more ++ after = [] →
      Blank after more → Blank after ('/' :: '/' :: (body ++ more))

/-- A text that is cut into lexemes, with blank text in front of, between and behind them. -/
inductive Split : List Char → List (List Char) → Prop where
  | last {blank : List Char} : Blank [] blank → Split blank []
  | more {blank lexeme rest : List Char} {lexemes : List (List Char)} :
      Blank (lexeme ++ rest) blank → lexeme ≠ [] → Split rest lexemes →
      Split (blank ++ (lexeme ++ rest)) (lexeme :: lexemes)

/-- The text of a token or fault. -/
def itemLexeme : Except LexError Token → List Char
  | .ok token => token.lexeme.toList
  | .error error => error.lexeme.toList

/-- The answers of one call of `next` after the other, up to the call that finds the end. -/
inductive Cursor.ReadsToEnd : Cursor → List (Except LexError Token) → Prop where
  | done {cur : Cursor} : cur.next.1 = none → ReadsToEnd cur []
  | item {cur : Cursor} {item : Except LexError Token} {items : List (Except LexError Token)} :
      cur.next.1 = some item → ReadsToEnd cur.next.2 items → ReadsToEnd cur (item :: items)

/-! ## Lexemes -/

/-- The parts of a text in front of and behind a run are the whole text. -/
private theorem prefix_takeWhile_append {p : Char → Bool} {text front : List Char} {c : Char}
    {rest : List Char} (hd : text.dropWhile p = c :: rest) (hf : front <+: rest) :
    text.takeWhile p ++ c :: front <+: text := by
  obtain ⟨tail, rfl⟩ := hf
  refine ⟨tail, ?_⟩
  rw [List.append_assoc, List.cons_append, ← hd, List.takeWhile_append_dropWhile]

/-- A number is read off the front of the text. -/
private theorem scanNumber_lexeme_front (c : Char) (rest : List Char) :
    (scanNumber c rest).lexeme <+: c :: rest := by
  simp only [scanNumber]
  split
  · -- The digits are followed by a point, and more digits may follow that.
    rename_i more hmore
    rw [List.cons_append, List.cons_prefix_cons]
    exact ⟨rfl, prefix_takeWhile_append hmore (List.takeWhile_prefix _)⟩
  · rw [List.cons_prefix_cons]
    exact ⟨rfl, List.takeWhile_prefix _⟩

/-- A string is read off the front of the text; without a closing quote it is all of the text. -/
private theorem scanString_lexeme_front (rest : List Char) :
    (scanString rest).lexeme <+: '"' :: rest := by
  simp only [scanString]
  split
  · rw [List.cons_prefix_cons]
    exact ⟨rfl, List.takeWhile_prefix _⟩
  · rename_i c more hmore
    -- What stops a string is a quote, and the quote belongs to it.
    have hc : c = '"' := by
      have := List.head?_dropWhile_not (· != '"') rest
      simpa [hmore] using this
    subst hc
    rw [List.cons_prefix_cons]
    exact ⟨rfl, prefix_takeWhile_append hmore (List.nil_prefix)⟩

/-- A character in quotes is read off the front of the text, and so are its faults. -/
private theorem scanChar_lexeme_front (rest : List Char) :
    (scanChar rest).lexeme <+: '\'' :: rest := by
  fun_cases scanChar rest <;> simp

/-- A symbol, or a character that starts no token, is read off the front of the text. -/
private theorem scanSymbol_lexeme_front (c : Char) (rest : List Char) :
    (scanSymbol c rest).lexeme <+: c :: rest := by
  simp only [scanSymbol]
  split
  · simp
  · split <;> simp

/-- Every lexeme is the text that stands where it is read. -/
theorem scan_lexeme_front (c : Char) (rest : List Char) :
    (scan c rest).lexeme <+: c :: rest := by
  -- Whatever is read, its lexeme is taken from the front of the text.
  simp only [scan]
  split
  · rw [List.cons_prefix_cons]
    exact ⟨rfl, List.takeWhile_prefix _⟩
  split
  · exact scanNumber_lexeme_front c rest
  split
  · rename_i hc
    rw [eq_of_beq hc]
    exact scanString_lexeme_front rest
  split
  · rename_i hc
    rw [eq_of_beq hc]
    exact scanChar_lexeme_front rest
  · exact scanSymbol_lexeme_front c rest

/-- No lexeme is empty. -/
theorem scan_lexeme_ne_nil (c : Char) (rest : List Char) : (scan c rest).lexeme ≠ [] := by
  -- Whatever is read, its lexeme has the first character in it.
  simp only [scan]
  split
  · simp
  split
  · simp only [scanNumber]
    split <;> simp
  split
  · simp only [scanString]
    split <;> simp
  split
  · fun_cases scanChar rest <;> simp
  · simp only [scanSymbol]
    split
    · simp
    · split <;> simp

/-! ## Blank text -/

/-- The text that is skipped is read off the front of the text. -/
theorem leadingBlank_front (inComment : Bool) (text : List Char) :
    leadingBlank inComment text <+: text := by
  fun_induction leadingBlank inComment text <;> simp_all

/-- Reading goes on at a character that is not blank. -/
theorem isBlank_of_drop_leadingBlank (inComment : Bool) {text rest : List Char} {c : Char}
    (h : text.drop (leadingBlank inComment text).length = c :: rest) : isBlank c = false := by
  fun_induction leadingBlank inComment text with
  | case1 => simp at h
  | case2 d text ih => exact ih (by simpa using h)
  | case3 _ d text _ _ ih => exact ih (by simpa using h)
  | case4 _ d text _ _ _ ih => exact ih (by simpa using h)
  | case5 _ d text _ hd _ =>
    simp only [List.length_nil, List.drop_zero, List.cons.injEq] at h
    obtain ⟨rfl, -⟩ := h
    simpa using hd

/-- A character that is skipped outside of comments is one of the blank ones. -/
private theorem mem_of_isBlank {c : Char} (h : isBlank c = true) :
    c ∈ [' ', '\t', '\r', '\x0c', '\n'] := by
  simpa [isBlank, or_assoc] using h

/-- Blank text that may start inside a comment; then what is left of the comment comes first. -/
def BlankFrom (after : List Char) : Bool → List Char → Prop
  | false, text => Blank after text
  | true, text => ∃ body more, text = body ++ more ∧ '\n' ∉ body ∧
      ((more ++ after).head? = some '\n' ∨ more ++ after = []) ∧ Blank after more

/-- The text that is skipped is blank, inside a comment and outside. -/
theorem blankFrom_leadingBlank (inComment : Bool) (text : List Char) {after : List Char}
    (h : text.drop (leadingBlank inComment text).length = after) :
    BlankFrom after inComment (leadingBlank inComment text) := by
  fun_induction leadingBlank inComment text with
  | case1 inComment =>
    subst h
    cases inComment with
    | false => exact .nil
    | true => exact ⟨[], [], rfl, by simp, .inr rfl, .nil⟩
  | case2 c rest ih =>
    -- Inside a comment: the line feed that ends it is blank text of its own
    have ih := ih (by simpa using h)
    by_cases hc : c = '\n'
    · subst hc
      exact ⟨[], _, rfl, by simp, .inl rfl, .char (by simp) ih⟩
    · have hb : (c != '\n') = true := by simpa using hc
      rw [hb] at ih ⊢
      obtain ⟨body, more, heq, hbody, hend, hmore⟩ := ih
      exact ⟨c :: body, more, by rw [heq]; rfl, by simp [hbody, Ne.symm hc], hend, hmore⟩
  | case3 inComment c rest hin hc ih =>
    rw [Bool.not_eq_true] at hin
    subst hin
    exact .char (mem_of_isBlank hc) (ih (by simpa using h))
  | case4 inComment c rest hin _ hc ih =>
    -- Two slashes open a comment, and the induction says where it ends.
    rw [Bool.not_eq_true] at hin
    subst hin
    obtain ⟨body, more, heq, hbody, hend, hmore⟩ := ih (by simpa using h)
    simp only [Bool.and_eq_true, beq_iff_eq] at hc
    obtain ⟨rfl, hslash⟩ := hc
    obtain ⟨tail, rfl⟩ : ∃ tail, rest = '/' :: tail := List.head?_eq_some_iff.mp hslash
    -- The second slash is the first character of what is left of the comment
    cases body with
    | nil =>
      rw [List.nil_append] at heq
      rw [← heq] at hend
      simp [leadingBlank] at hend
    | cons d body =>
      have hd : d = '/' := by
        simp only [leadingBlank, ↓reduceIte, List.cons_append, List.cons.injEq] at heq
        exact heq.1.symm
      subst hd
      rw [heq]
      exact .comment (fun hm => hbody (List.mem_cons_of_mem _ hm)) hend hmore
  | case5 inComment c rest hin _ _ =>
    rw [Bool.not_eq_true] at hin
    subst hin
    exact .nil

/-! ## One call -/

namespace Cursor

/-- Passing a blank character moves one character on. -/
@[simp] theorem here_passBlank (cur : Cursor) (c : Char) :
    (cur.passBlank c).here = cur.here.ahead 1 := by
  simp only [passBlank]
  split <;> rfl

/-- Passing a lexeme moves its length on. -/
@[simp] theorem here_passLexeme (cur : Cursor) (lexeme : List Char) :
    (cur.passLexeme lexeme).here = cur.here.ahead lexeme.length := by
  simp only [passLexeme]
  split
  · split <;> rfl
  · rfl
  · rfl

/-- Passing blank text moves its length on. -/
private theorem here_foldl_passBlank (cur : Cursor) (blank : List Char) :
    (blank.foldl passBlank cur).here = cur.here.ahead blank.length := by
  induction blank generalizing cur with
  | nil => rfl
  | cons c rest ih =>
    rw [List.foldl_cons, ih, here_passBlank]
    simp [Mark.ahead, Nat.add_comm, Nat.add_left_comm]

/-- Skipping leads behind the blank text. -/
theorem here_skipBlank (cur : Cursor) :
    cur.skipBlank.here = cur.here.ahead (leadingBlank false cur.here.text).length :=
  here_foldl_passBlank cur _

/-- What is skipped is blank text, with regard to the text behind it. -/
theorem exists_blank_skipBlank (cur : Cursor) :
    ∃ blank, cur.here.text = blank ++ cur.skipBlank.here.text ∧
      Blank cur.skipBlank.here.text blank := by
  refine ⟨leadingBlank false cur.here.text, ?_, ?_⟩
  · rw [here_skipBlank]
    exact (List.prefix_iff_eq_append.mp (leadingBlank_front false _)).symm
  · rw [here_skipBlank]
    exact blankFrom_leadingBlank false cur.here.text rfl

/-- A lexeme that has been passed stands in front of the text that is left. -/
theorem append_here_passLexeme {cur : Cursor} {c : Char} {rest : List Char}
    (h : cur.here.text = c :: rest) :
    (scan c rest).lexeme ++ (cur.passLexeme (scan c rest).lexeme).here.text = c :: rest := by
  rw [here_passLexeme]
  simp only [Mark.ahead, h]
  exact List.prefix_iff_eq_append.mp (scan_lexeme_front c rest)

/-- At the end of the text, up to blank text, there is nothing to read. -/
theorem next_of_blank {cur : Cursor} (h : cur.skipBlank.here.text = []) :
    cur.next = (none, cur.skipBlank) := by
  simp [next, h]

/-- Elsewhere one lexeme is read. -/
theorem next_of_lexeme {cur : Cursor} {c : Char} {rest : List Char}
    (h : cur.skipBlank.here.text = c :: rest) :
    cur.next =
      (some ((cur.skipBlank.passLexeme (scan c rest).lexeme).report cur.skipBlank.here
          (scan c rest)),
        cur.skipBlank.passLexeme (scan c rest).lexeme) := by
  simp [next, h]

/-- What is reported has the text of the lexeme. -/
theorem itemLexeme_report (cur : Cursor) (start : Mark) (s : Scan) :
    itemLexeme (cur.report start s) = s.lexeme := by
  simp only [report]
  split <;> simp [itemLexeme]

/-! ## All calls -/

/-- Reading up to as many items as there are characters reads all of them: what is left of the text
    is split into their lexemes. -/
private theorem items_split (n : Nat) (cur : Cursor) (hn : cur.here.text.length ≤ n) :
    cur.ReadsToEnd ((cur.items n).map Prod.fst) ∧
      Split cur.here.text ((cur.items n).map fun item => itemLexeme item.1) := by
  obtain ⟨blank, htext, hblank⟩ := exists_blank_skipBlank cur
  induction n generalizing cur blank with
  | zero =>
    -- No items are read only if there is no text at all.
    have hnil : cur.here.text = [] := List.eq_nil_of_length_eq_zero (by omega)
    obtain ⟨rfl, hend⟩ := List.append_eq_nil_iff.mp (htext.symm.trans hnil)
    refine ⟨.done ?_, ?_⟩
    · rw [next_of_blank hend]
    · rw [hnil]; exact .last .nil
  | succ n ih =>
    cases hafter : cur.skipBlank.here.text with
    | nil =>
      rw [hafter] at hblank htext
      have hnext := next_of_blank hafter
      simp only [items, hnext, List.map_nil]
      refine ⟨.done ?_, ?_⟩
      · rw [hnext]
      · rw [htext, List.append_nil]; exact .last hblank
    | cons c rest =>
      rw [hafter] at hblank htext
      have hnext := next_of_lexeme hafter
      have hlex := append_here_passLexeme hafter
      have hne := scan_lexeme_ne_nil c rest
      -- The lexeme is not empty, so one item less is enough for the text behind it
      have hshort : (cur.skipBlank.passLexeme (scan c rest).lexeme).here.text.length ≤ n := by
        have hlen := congrArg List.length hlex
        rw [htext] at hn
        simp only [List.length_append] at hlen hn
        have := List.length_pos_iff.mpr hne
        omega
      obtain ⟨blank', htext', hblank'⟩ :=
        exists_blank_skipBlank (cur.skipBlank.passLexeme (scan c rest).lexeme)
      obtain ⟨hreads, hsplit⟩ := ih _ hshort blank' htext' hblank'
      simp only [items, hnext, List.map_cons, itemLexeme_report]
      refine ⟨.item (by rw [hnext]) (by rw [hnext]; exact hreads), ?_⟩
      rw [htext, ← hlex]
      exact .more (hlex ▸ hblank) hne hsplit

end Cursor

/-- Calling `next` on and on, also after faults, comes to an end, and the lexemes of all tokens and
    faults split the source text, with blank text in front of, between and behind them. -/
theorem reading_splits_source (source : String) :
    (Cursor.start source).ReadsToEnd ((readItems source).map Prod.fst) ∧
      Split source.toList ((readItems source).map fun item => itemLexeme item.1) :=
  Cursor.items_split source.toList.length (.start source) (Nat.le_refl _)

end Script
