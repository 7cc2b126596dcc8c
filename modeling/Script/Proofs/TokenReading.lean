import Script.Proofs.CursorPositions

/-!
# What a text reads as

`Lexes` says which tokens a text reads as, from the text alone: blank text is skipped, the lexeme
behind it is scanned, and the token is on the line and in the column that the text in front of it
leads to. It has no cursor, so that texts can be put together and taken apart, which is what
statements about two source texts need.

## Key results

- `Cursor.Tracks.items_iff_lexes`: a cursor reads the tokens that its text reads as
- `readTokens_iff_lexes`: the same for whole source texts
- `exists_item_of_mem` / `exists_item_of_error`: tokens and the first fault come from single calls
-/

namespace Script

/-- The text behind the blank text in front of it. -/
def behindBlank (text : List Char) : List Char :=
  text.drop (leadingBlank false text).length

/-- A token that stands behind `before`. -/
def Token.behind (before : List Char) (kind : TokenKind) (lexeme : List Char) : Token where
  kind := kind
  lexeme := String.ofList lexeme
  line := 1 + before.count '\n'
  column := 1 + (Text.lastLine before).length

/-- A text reads as a list of tokens, if `before` stands in front of it. There is no rule for text
    that is at fault, so that such text reads as nothing. -/
inductive Lexes : List Char → List Char → List Token → Prop where
  | done {before text : List Char} : behindBlank text = [] → Lexes before text []
  | token {before text tail : List Char} {c : Char} {kind : TokenKind} {tokens : List Token} :
      behindBlank text = c :: tail → (scan c tail).result = .ok kind →
      Lexes (before ++ leadingBlank false text ++ (scan c tail).lexeme)
        ((c :: tail).drop (scan c tail).lexeme.length) tokens →
      Lexes before text
        (.behind (before ++ leadingBlank false text) kind (scan c tail).lexeme :: tokens)

/-- Blank text and what follows it are the whole text. -/
theorem leadingBlank_append_behindBlank (text : List Char) :
    leadingBlank false text ++ behindBlank text = text :=
  List.prefix_iff_eq_append.mp (leadingBlank_front false text)

/-- A text with nothing behind its blank text is blank. -/
theorem behindBlank_eq_nil_iff {text : List Char} :
    behindBlank text = [] ↔ leadingBlank false text = text := by
  have happend := leadingBlank_append_behindBlank text
  constructor
  · intro h
    rwa [h, List.append_nil] at happend
  · intro h
    rw [h] at happend
    exact List.self_eq_append_right.mp happend.symm

namespace Lexes

variable {before text tail : List Char} {c : Char} {tokens : List Token}

/-- Where only blank text is left, there are no tokens. -/
private theorem done_iff (h : behindBlank text = []) : Lexes before text tokens ↔ tokens = [] := by
  constructor
  · intro hlexes
    cases hlexes with
    | done _ => rfl
    | token hbehind _ _ => rw [h] at hbehind; cases hbehind
  · intro heq
    rw [heq]
    exact .done h

/-- Where more than blank text is left, the first token is the one at its start, and the others are
    read behind it. -/
private theorem token_iff (h : behindBlank text = c :: tail) :
    Lexes before text tokens ↔
      ∃ kind more, (scan c tail).result = .ok kind ∧
        Lexes (before ++ leadingBlank false text ++ (scan c tail).lexeme)
          ((c :: tail).drop (scan c tail).lexeme.length) more ∧
        tokens =
          .behind (before ++ leadingBlank false text) kind (scan c tail).lexeme :: more := by
  constructor
  · intro hlexes
    cases hlexes with
    | done hbehind => rw [h] at hbehind; cases hbehind
    | token hbehind hkind hmore =>
      rw [h] at hbehind
      cases hbehind
      exact ⟨_, _, hkind, hmore, rfl⟩
  · intro htoken
    obtain ⟨kind, more, hkind, hmore, rfl⟩ := htoken
    exact .token h hkind hmore

/-- A token that no blank text stands in front of. -/
theorem token_here (tail : List Char) {rest : List Char} {kind : TokenKind}
    (hskip : leadingBlank false (c :: (tail ++ rest)) = [])
    (hscan : scan c (tail ++ rest) = ⟨.ok kind, c :: tail⟩)
    (hrest : Lexes (before ++ c :: tail) rest tokens) :
    Lexes before (c :: (tail ++ rest)) (.behind before kind (c :: tail) :: tokens) := by
  have hbehind : behindBlank (c :: (tail ++ rest)) = c :: (tail ++ rest) := by
    rw [behindBlank, hskip, List.length_nil, List.drop_zero]
  have hdrop : (c :: (tail ++ rest)).drop (c :: tail).length = rest := by
    rw [← List.cons_append, List.drop_left]
  -- No text is skipped in front of the lexeme, and `rest` is what stands behind it.
  rw [token_iff hbehind, hskip, hscan, List.append_nil]
  refine ⟨kind, tokens, rfl, ?_, rfl⟩
  rw [hdrop]
  exact hrest

end Lexes

/-! ## Cursors -/

namespace Cursor

/-- Skipping leads to the text behind the blank text. -/
theorem text_skipBlank (cur : Cursor) :
    cur.skipBlank.here.text = behindBlank cur.here.text := by
  rw [here_skipBlank]
  rfl

/-- What is reported is a token if the lexeme is one, at the place behind the text that has been
    passed. -/
private theorem Tracks.report_ok_iff {source : String} {before : List Char} {cur : Cursor}
    (h : Tracks source before cur) {c : Char} {rest : List Char}
    (htext : cur.here.text = c :: rest) (hc : c ≠ '\n') {token : Token} :
    (cur.passLexeme (scan c rest).lexeme).report cur.here (scan c rest) = .ok token ↔
      ∃ kind, (scan c rest).result = .ok kind ∧
        token = .behind before kind (scan c rest).lexeme := by
  have hpass := h.passLexeme htext hc
  have hlocate := hpass.locate cur.here (by simp [h.offset])
  have htake : source.toList.take cur.here.offset = before := by
    rw [h.text, h.offset, List.take_left]
  simp only [Text.lineAt, Text.columnAt, htake] at hlocate
  simp only [report, hlocate]
  cases (scan c rest).result with
  | error fault => simp
  | ok kind => simp [Token.behind, eq_comm]

/-- Without items there are no tokens. -/
private theorem mapM_nil_ok_iff {tokens : List Token} :
    ([] : List (Except LexError Token × Cursor)).mapM Prod.fst = .ok tokens ↔ tokens = [] := by
  simp [pure, Except.pure, eq_comm]

/-- Items give tokens if each of them is one. -/
private theorem mapM_cons_ok_iff {item : Except LexError Token × Cursor}
    {items : List (Except LexError Token × Cursor)} {tokens : List Token} :
    (item :: items).mapM Prod.fst = .ok tokens ↔
      ∃ token more, item.1 = .ok token ∧ items.mapM Prod.fst = .ok more ∧
        tokens = token :: more := by
  rw [List.mapM_cons]
  rcases item.1 with e | token
  · simp [bind, Except.bind]
  · rcases items.mapM Prod.fst with e | more
    · simp [bind, Except.bind]
    · simp [bind, Except.bind, pure, Except.pure, eq_comm]

/-- A cursor that has passed `before` reads the tokens that the text in front of it reads as. -/
theorem Tracks.items_iff_lexes {source : String} {before : List Char} {cur : Cursor}
    (h : Tracks source before cur) (n : Nat) (hn : cur.here.text.length ≤ n)
    (tokens : List Token) :
    (cur.items n).mapM Prod.fst = .ok tokens ↔ Lexes before cur.here.text tokens := by
  induction n generalizing before cur tokens with
  | zero =>
    -- There is no text, and no item is read.
    have hnil : cur.here.text = [] := List.eq_nil_of_length_eq_zero (by omega)
    rw [Lexes.done_iff (by rw [hnil]; rfl), items, mapM_nil_ok_iff]
  | succ n ih =>
    have htext := text_skipBlank cur
    cases hbehind : behindBlank cur.here.text with
    | nil =>
      rw [hbehind] at htext
      simp only [Lexes.done_iff hbehind, items, next_of_blank htext, mapM_nil_ok_iff]
    | cons c tail =>
      rw [hbehind] at htext
      have hskip : Tracks source (before ++ leadingBlank false cur.here.text) cur.skipBlank :=
        h.foldl_passBlank (leadingBlank_append_behindBlank _).symm
      have hc : c ≠ '\n' := by
        intro heq
        have hblank := isBlank_of_drop_leadingBlank false hbehind
        rw [heq] at hblank
        exact absurd hblank (by decide)
      have hpass := hskip.passLexeme htext hc
      -- The text behind the lexeme is shorter, so that one item less is enough for it.
      have hrest : (cur.skipBlank.passLexeme (scan c tail).lexeme).here.text =
          (c :: tail).drop (scan c tail).lexeme.length := by
        rw [here_passLexeme, Mark.ahead, htext]
      have hshort : (cur.skipBlank.passLexeme (scan c tail).lexeme).here.text.length ≤ n := by
        have hpos := List.length_pos_iff.mpr (scan_lexeme_ne_nil c tail)
        have hlen := congrArg List.length (leadingBlank_append_behindBlank cur.here.text)
        rw [hbehind, List.length_append] at hlen
        rw [hrest, List.length_drop]
        omega
      rw [Lexes.token_iff hbehind]
      simp only [items, next_of_lexeme htext, mapM_cons_ok_iff, hskip.report_ok_iff htext hc,
        ih hpass hshort, hrest]
      constructor
      · intro hread
        obtain ⟨_, more, ⟨kind, hkind, rfl⟩, hmore, rfl⟩ := hread
        exact ⟨kind, more, hkind, hmore, rfl⟩
      · intro hlexes
        obtain ⟨kind, more, hkind, hmore, rfl⟩ := hlexes
        exact ⟨_, more, ⟨kind, hkind, rfl⟩, hmore, rfl⟩

end Cursor

/-! ## Whole source texts -/

/-- Every token that is read comes from one of the items. -/
theorem exists_item_of_mem {items : List (Except LexError Token × Cursor)} {tokens : List Token}
    (h : items.mapM Prod.fst = .ok tokens) :
    ∀ token ∈ tokens, ∃ item ∈ items, item.1 = .ok token := by
  induction items generalizing tokens with
  | nil =>
    rw [Cursor.mapM_nil_ok_iff] at h
    simp [h]
  | cons item items ih =>
    obtain ⟨first, more, hfirst, hmore, rfl⟩ := Cursor.mapM_cons_ok_iff.mp h
    intro token htoken
    rcases List.mem_cons.mp htoken with rfl | htoken
    · exact ⟨item, List.mem_cons_self, hfirst⟩
    · obtain ⟨found, hfound, heq⟩ := ih hmore token htoken
      exact ⟨found, List.mem_cons_of_mem item hfound, heq⟩

/-- And so does the fault that ends reading. -/
theorem exists_item_of_error {items : List (Except LexError Token × Cursor)} {e : LexError}
    (h : items.mapM Prod.fst = .error e) : ∃ item ∈ items, item.1 = .error e := by
  induction items with
  | nil => cases h
  | cons item items ih =>
    rw [List.mapM_cons] at h
    cases hfirst : item.1 with
    | error fault =>
      rw [hfirst] at h
      cases h
      exact ⟨item, List.mem_cons_self, hfirst⟩
    | ok token =>
      -- The first item is a token, so that the fault is one further on.
      cases hmore : items.mapM Prod.fst with
      | error fault =>
        rw [hfirst, hmore] at h
        cases h
        obtain ⟨found, hfound, heq⟩ := ih hmore
        exact ⟨found, List.mem_cons_of_mem item hfound, heq⟩
      | ok tokens =>
        rw [hfirst, hmore] at h
        cases h

/-- The tokens of a source text are those that it reads as. -/
theorem readTokens_iff_lexes (source : String) (tokens : List Token) :
    readTokens source = .ok tokens ↔ Lexes [] source.toList tokens :=
  (Cursor.Tracks.start source).items_iff_lexes source.toList.length (Nat.le_refl _) tokens

end Script
