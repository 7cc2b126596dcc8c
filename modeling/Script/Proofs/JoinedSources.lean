import Script.Proofs.GrammarComplete
import Script.Proofs.TokenRelabeling
import Script.Proofs.TokenReading

/-!
# Source texts joined by a line feed

Two source texts that are programs make up a program when they are joined by a line feed: the
statements of the first, and those of the second further down. The line feed ends a comment and
keeps the last token of the first text apart from the second text. A string has to be closed in its
own text, since otherwise that text would not be a program. And no statement of the first program
takes a token of the second, since no statement starts with `else`.

## Key results

- `scan_append_blank`: a blank character ends every token
- `Lexes.append_feed`: the tokens of joined texts
- `Grammar.DerivesProgram.append`: programs are derived from joined tokens
- `parse_joined`: joined source texts
-/

namespace Script

/-! ## What ends a token -/

/-- What a blank character is not: it continues no word and no number, and it is the second
    character of no symbol. -/
private theorem blank_ends {b : Char} (hb : isBlank b = true) :
    isWordRest b = false ∧ b.isDigit = false ∧ b ≠ '.' ∧ ∀ c, Symbol.ofPair? c b = none := by
  simp only [isBlank, Bool.or_eq_true, beq_iff_eq, or_assoc] at hb
  rcases hb with rfl | rfl | rfl | rfl | rfl
  all_goals exact ⟨by decide, by decide, by decide, fun c => by simp [Symbol.ofPair?]⟩

/-- Characters are not taken beyond one that stops them. -/
private theorem takeWhile_append_stop {p : Char → Bool} {b : Char} (hb : p b = false)
    (rest more : List Char) : (rest ++ b :: more).takeWhile p = rest.takeWhile p := by
  induction rest with
  | nil => simp [hb]
  | cons c rest ih => simp only [List.cons_append, List.takeWhile_cons, ih]

/-- Behind the characters that are dropped, the one that stops them still stands. -/
private theorem dropWhile_append_stop {p : Char → Bool} {b : Char} (hb : p b = false)
    (rest more : List Char) :
    (rest ++ b :: more).dropWhile p = rest.dropWhile p ++ b :: more := by
  induction rest with
  | nil => simp [hb]
  | cons c rest ih =>
    simp only [List.cons_append, List.dropWhile_cons]
    split
    · exact ih
    · rfl

/-- A number ends before a blank character, whatever stands behind it. -/
private theorem scanNumber_append_blank {b : Char} (hb : isBlank b = true) (c : Char)
    (rest more : List Char) : scanNumber c (rest ++ b :: more) = scanNumber c rest := by
  obtain ⟨-, hdigit, hpoint, -⟩ := blank_ends hb
  unfold scanNumber
  rw [takeWhile_append_stop hdigit, dropWhile_append_stop hdigit]
  -- Behind the digits stands what stood there, or the blank character if that was nothing.
  cases rest.dropWhile Char.isDigit with
  | nil => simp [hpoint]
  | cons d tail =>
    by_cases hd : d = '.'
    · subst hd
      simp only [List.cons_append, takeWhile_append_stop hdigit]
    · simp [hd]

/-- A string that has been closed has taken nothing from behind it. -/
private theorem scanString_append {rest : List Char} {kind : TokenKind}
    (hok : (scanString rest).result = .ok kind) (more : List Char) :
    scanString (rest ++ more) = scanString rest := by
  unfold scanString at hok ⊢
  have hparts := List.takeWhile_append_dropWhile (p := (· != '"')) (l := rest)
  cases hdrop : rest.dropWhile (· != '"') with
  | nil => simp [hdrop] at hok
  | cons quote tail =>
    have hquote : (quote != '"') = false := by
      have := List.head?_dropWhile_not (· != '"') rest
      simpa [hdrop] using this
    -- The whole text is the body, the closing quote and what follows it.
    rw [hdrop] at hparts
    have hmore : rest ++ more = rest.takeWhile (· != '"') ++ quote :: (tail ++ more) := by
      rw [← List.cons_append, ← List.append_assoc, hparts]
    have hbody : ∀ c ∈ rest.takeWhile (· != '"'), (c != '"') = true := by
      intro c hc
      exact List.mem_takeWhile_imp (p := (· != '"')) hc
    rw [hmore, List.takeWhile_append_of_pos hbody, List.dropWhile_append_of_pos hbody,
      List.takeWhile_cons_of_neg (by simp [hquote]), List.dropWhile_cons_of_neg (by simp [hquote]),
      List.append_nil]

/-- A character literal that is read does not depend on what stands behind it. -/
private theorem scanChar_append {rest : List Char} {kind : TokenKind}
    (hok : (scanChar rest).result = .ok kind) (more : List Char) :
    scanChar (rest ++ more) = scanChar rest := by
  revert hok
  fun_cases scanChar rest <;> simp_all [scanChar]

/-- A sign ends before a blank character, since no sign of two characters has one. -/
private theorem scanSymbol_append_blank {b : Char} (hb : isBlank b = true) (c : Char)
    (rest more : List Char) : scanSymbol c (rest ++ b :: more) = scanSymbol c rest := by
  obtain ⟨-, -, -, hpair⟩ := blank_ends hb
  cases rest with
  | nil => simp [scanSymbol, hpair]
  | cons d rest =>
    simp only [scanSymbol, List.cons_append, List.head?_cons, Option.bind_some]
    cases Symbol.ofPair? c d <;> rfl

/-- A token that is followed by a blank character is the same token, whatever comes behind it. -/
theorem scan_append_blank {b c : Char} {rest : List Char} {kind : TokenKind}
    (hb : isBlank b = true) (hok : (scan c rest).result = .ok kind) (more : List Char) :
    scan c (rest ++ b :: more) = scan c rest := by
  obtain ⟨hword, -⟩ := blank_ends hb
  -- Every kind of lexeme ends before a blank character, unless it has one in it and is closed.
  unfold scan at hok ⊢
  split at hok
  · rename_i hc
    rw [if_pos hc, takeWhile_append_stop hword, if_pos hc]
  split at hok
  · rename_i hc hd
    simp only [hc, hd, if_true, Bool.false_eq_true, if_false, scanNumber_append_blank hb]
  split at hok
  · rename_i hc hd hs
    simp only [hc, hd, hs, if_true, Bool.false_eq_true, if_false, scanString_append hok]
  split at hok
  · rename_i hc hd hs hq
    simp only [hc, hd, hs, hq, if_true, Bool.false_eq_true, if_false, scanChar_append hok]
  · rename_i hc hd hs hq
    simp only [hc, hd, hs, hq, Bool.false_eq_true, if_false, scanSymbol_append_blank hb]

/-! ## Tokens of joined texts -/

/-- Blank text in front of a line feed goes on behind it, also if it ends in a comment; other text
    keeps its blank text. -/
private theorem leadingBlank_append_feed (inComment : Bool) (text more : List Char) :
    leadingBlank inComment (text ++ '\n' :: more) =
      if leadingBlank inComment text = text then text ++ '\n' :: leadingBlank false more
      else leadingBlank inComment text := by
  -- A comment goes on up to the line feed, and what stands behind that is read as a new line.
  induction text generalizing inComment with
  | nil =>
    cases inComment <;> simp [leadingBlank, isBlank]
  | cons c rest ih =>
    have hhead : ((rest ++ '\n' :: more).head? == some '/') = (rest.head? == some '/') := by
      cases rest <;> rfl
    simp only [List.cons_append, leadingBlank, hhead]
    split
    · rw [ih]; split <;> simp_all
    split
    · rw [ih]; split <;> simp_all
    split
    · rw [ih]; split <;> simp_all
    · simp

/-- The token as many lines further down. -/
def Token.lower (count : Nat) (t : Token) : Token :=
  { t with line := t.line + count }

namespace Lexes

/-- Lines in front of a text lower its tokens and change nothing else. -/
private theorem behind_lines {before text : List Char} {tokens : List Token}
    (h : Lexes before text tokens) (front : List Char) :
    Lexes (front ++ '\n' :: before) text (tokens.map (·.lower (1 + front.count '\n'))) := by
  induction h with
  | done hbehind => exact .done hbehind
  | @token before text tail c kind tokens hbehind hkind _ ih =>
    -- The column of a token is counted in its own line, so that only its line changes.
    have hlower : (Token.behind (before ++ leadingBlank false text) kind (scan c tail).lexeme).lower
        (1 + front.count '\n') = .behind (front ++ '\n' :: before ++ leadingBlank false text) kind
          (scan c tail).lexeme := by
      rw [List.append_assoc, List.cons_append]
      simp only [Token.behind, Token.lower, Text.lastLine_append_feed, Token.mk.injEq, true_and,
        and_true, List.count_append, List.count_cons_self]
      omega
    rw [List.map_cons, hlower]
    apply token hbehind hkind
    simpa using ih

/-- A text that is followed by a line feed keeps its tokens, and what follows reads as if it stood
    behind the text. -/
theorem append_feed {before text₁ text₂ : List Char} {ts₁ ts₂ : List Token}
    (h₁ : Lexes before text₁ ts₁) (h₂ : Lexes (before ++ text₁ ++ ['\n']) text₂ ts₂) :
    Lexes before (text₁ ++ '\n' :: text₂) (ts₁ ++ ts₂) := by
  induction h₁ with
  | @done before text hbehind =>
    -- The first text has ended, and all of it is skipped in front of the second one.
    have hblank : leadingBlank false (text ++ '\n' :: text₂) =
        text ++ '\n' :: leadingBlank false text₂ := by
      rw [leadingBlank_append_feed, if_pos (behindBlank_eq_nil_iff.mp hbehind)]
    have hsame : behindBlank (text ++ '\n' :: text₂) = behindBlank text₂ := by
      simp [behindBlank, hblank]
    have hbefore : before ++ leadingBlank false (text ++ '\n' :: text₂) =
        before ++ text ++ ['\n'] ++ leadingBlank false text₂ := by
      simp [hblank]
    rw [List.nil_append]
    cases h₂ with
    | done hbehind₂ => exact .done (hsame.trans hbehind₂)
    | token hbehind₂ hkind hmore =>
      rw [← hbefore] at hmore ⊢
      exact .token (hsame.trans hbehind₂) hkind hmore
  | @token before text tail c kind tokens hbehind hkind _ ih =>
    have hnot : leadingBlank false text ≠ text := by
      intro hall
      rw [behindBlank_eq_nil_iff.mpr hall] at hbehind
      cases hbehind
    have hblank : leadingBlank false (text ++ '\n' :: text₂) = leadingBlank false text := by
      rw [leadingBlank_append_feed, if_neg hnot]
    have hsame : behindBlank (text ++ '\n' :: text₂) = c :: (tail ++ '\n' :: text₂) := by
      have hle := (leadingBlank_front false text).length_le
      rw [behindBlank, hblank, List.drop_append_of_le_length hle, ← List.cons_append, ← hbehind]
      rfl
    have hscan := scan_append_blank (b := '\n') (by decide) hkind text₂
    -- The lexeme lies in the first text, and the line feed stays behind it.
    have hlex := scan_lexeme_front c tail
    have hrest : (c :: (tail ++ '\n' :: text₂)).drop (scan c tail).lexeme.length =
        (c :: tail).drop (scan c tail).lexeme.length ++ '\n' :: text₂ := by
      rw [← List.cons_append, List.drop_append_of_le_length hlex.length_le]
    have hwhole : before ++ leadingBlank false text ++ (scan c tail).lexeme ++
        (c :: tail).drop (scan c tail).lexeme.length = before ++ text := by
      rw [List.append_assoc, List.prefix_iff_eq_append.mp hlex, ← hbehind, List.append_assoc,
        leadingBlank_append_behindBlank]
    rw [List.cons_append, ← hblank, ← hscan]
    apply token hsame
    · rw [hscan]; exact hkind
    · rw [hscan, hblank, hrest]
      apply ih
      rw [hwhole]
      exact h₂

end Lexes

/-! ## Programs of joined texts -/

/-- Programs that are derived from tokens are derived together from the tokens together. -/
theorem Grammar.DerivesProgram.append {ts₁ ts₂ : List Token} {p₁ p₂ : Program}
    (h₁ : DerivesProgram ts₁ p₁) (h₂ : DerivesProgram ts₂ p₂) :
    DerivesProgram (ts₁ ++ ts₂) (p₁ ++ p₂) := by
  obtain ⟨parts₁, hparts₁, rfl, rfl⟩ := h₁
  obtain ⟨parts₂, hparts₂, rfl, rfl⟩ := h₂
  refine ⟨parts₁ ++ parts₂, ?_, by simp, by simp⟩
  intro part hpart
  rcases List.mem_append.mp hpart with hpart | hpart
  · exact hparts₁ part hpart
  · exact hparts₂ part hpart

/-- Counting further lines changes the line of a token and nothing that is read from it. -/
private theorem Token.relabels_lower (count : Nat) : Token.Relabels (· + count)
    (·.lower count) where
  kind _ := rfl
  line _ := rfl

/-- If two source texts are programs, then the texts joined by a line feed are a program: the
    statements of the first, followed by those of the second with every line in them raised by the
    number of lines in front of the second text. -/
theorem parse_joined (s₁ s₂ : String) (p₁ p₂ : Program) (h₁ : parse s₁ = .ok p₁)
    (h₂ : parse s₂ = .ok p₂) :
    parse (s₁ ++ "\n" ++ s₂) =
      .ok (p₁ ++ p₂.map (Statement.mapLines (· + (1 + s₁.toList.count '\n')))) := by
  obtain ⟨ts₁, _, hread₁, hprogram₁⟩ := parse_ok_iff.mp h₁
  obtain ⟨ts₂, _, hread₂, hprogram₂⟩ := parse_ok_iff.mp h₂
  let count := 1 + s₁.toList.count '\n'
  -- The tokens of the joined text are those of both texts, the second ones lowered.
  have hlex₁ := (readTokens_iff_lexes s₁ ts₁).mp hread₁
  have hlex₂ := ((readTokens_iff_lexes s₂ ts₂).mp hread₂).behind_lines s₁.toList
  have hread : readTokens (s₁ ++ "\n" ++ s₂) = .ok (ts₁ ++ ts₂.map (·.lower count)) := by
    rw [readTokens_iff_lexes, String.toList_append, String.toList_append, List.append_assoc]
    exact hlex₁.append_feed hlex₂
  -- From the lowered tokens the second program is read with its lines raised.
  have hlowered := Grammar.follows_program (Token.relabels_lower count) ts₂
  rw [hprogram₂] at hlowered
  have hprogram := Grammar.program_complete
    ((Grammar.program_sound hprogram₁).append (Grammar.program_sound hlowered))
  exact parse_ok_iff.mpr ⟨_, [], hread, hprogram⟩

/-- A branch without `else` and a comment at the end of the first text, and a string with a line
    feed in the second. -/
theorem parse_joined_branch_and_string :
    let first : Program :=
      [.branch (.identifier "x" 2) (.expression (.identifier "y" 2) 2) none 2]
    let second (shift : Nat) : Program :=
      [.expression (.binary (.literal (.string "\n") (1 + shift)) .add
        (.identifier "z" (2 + shift)) (2 + shift)) (1 + shift)]
    parse "\nif (x) y; // else" = .ok first ∧ parse "\"\n\" + z;" = .ok (second 0) ∧
      parse ("\nif (x) y; // else" ++ "\n" ++ "\"\n\" + z;") = .ok (first ++ second 2) := by
  intro first second
  have htokens₁ : readTokens "\nif (x) y; // else" = .ok
      [⟨.keyword .kwIf, "if", 2, 1⟩, ⟨.symbol .leftParen, "(", 2, 4⟩, ⟨.identifier "x", "x", 2, 5⟩,
        ⟨.symbol .rightParen, ")", 2, 6⟩, ⟨.identifier "y", "y", 2, 8⟩,
        ⟨.symbol .semicolon, ";", 2, 9⟩] := by decide +kernel
  have htokens₂ : readTokens "\"\n\" + z;" = .ok
      [⟨.literal (.string "\n"), "\"\n\"", 1, 1⟩, ⟨.symbol .plus, "+", 2, 3⟩,
        ⟨.identifier "z", "z", 2, 5⟩, ⟨.symbol .semicolon, ";", 2, 6⟩] := by decide +kernel
  have h₁ : parse "\nif (x) y; // else" = .ok first := parse_ok_iff.mpr ⟨_, _, htokens₁, rfl⟩
  have h₂ : parse "\"\n\" + z;" = .ok (second 0) := parse_ok_iff.mpr ⟨_, _, htokens₂, rfl⟩
  exact ⟨h₁, h₂, parse_joined _ _ _ _ h₁ h₂⟩

end Script
