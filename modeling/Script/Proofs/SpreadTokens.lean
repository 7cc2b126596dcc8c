import Script.Proofs.JoinedSources
import Script.Proofs.LongestLexeme

/-!
# Tokens in a new layout

The lexemes of a source text can be written down again with other text between them, and read as the
same tokens: any blank characters and any comments that end with their line, as long as a blank
character stands behind each lexeme but the last. What makes this work is that a lexeme is the same
token alone as in the text that it comes from, and that a blank character ends every lexeme, a slash
in front of a comment included.

## Key results

- `Separator.leadingBlank_append`: a separator is skipped whole
- `Lexes.token_alone`: a lexeme in front of a separator
- `readTokens_spread`: lexemes with separators between them are read as the same tokens
-/

namespace Script

/-! ## Separators -/

/-- Text between tokens: blank characters, and comments that are closed by a line feed. -/
inductive Separator : List Char → Prop where
  | nil : Separator []
  | char {c : Char} {more : List Char} :
      c ∈ [' ', '\t', '\r', '\x0c', '\n'] → Separator more → Separator (c :: more)
  | comment {body more : List Char} :
      '\n' ∉ body → Separator more → Separator ('/' :: '/' :: (body ++ '\n' :: more))

/-- The text, if there is any, starts with a blank character. -/
def StartsBlank (text : List Char) : Prop :=
  ∀ c ∈ text.head?, c ∈ [' ', '\t', '\r', '\x0c', '\n']

instance (text : List Char) : Decidable (StartsBlank text) :=
  inferInstanceAs (Decidable (∀ c ∈ text.head?, c ∈ [' ', '\t', '\r', '\x0c', '\n']))

/-- The lexemes of tokens, each with the text behind it. -/
def spread (tokens : List Token) (gaps : List (List Char)) : List Char :=
  (List.zipWith (fun token gap => token.lexeme.toList ++ gap) tokens gaps).flatten

/-- A comment goes on to its line feed. -/
private theorem leadingBlank_comment {body : List Char} (h : '\n' ∉ body) (text : List Char) :
    leadingBlank true (body ++ '\n' :: text) = body ++ '\n' :: leadingBlank false text := by
  induction body with
  | nil => simp [leadingBlank]
  | cons c body ih =>
    obtain ⟨hc, hbody⟩ := not_or.mp (mt List.mem_cons.mpr h)
    have hnot : (c != '\n') = true := by simpa using Ne.symm hc
    simp only [List.cons_append, leadingBlank, if_true, hnot, ih hbody]

/-- A separator is skipped whole, with the blank text behind it. -/
theorem Separator.leadingBlank_append {gap : List Char} (h : Separator gap) (text : List Char) :
    leadingBlank false (gap ++ text) = gap ++ leadingBlank false text := by
  induction h with
  | nil => rfl
  | char hc _ ih =>
    rw [List.cons_append, leadingBlank, if_neg (by decide), if_pos (Pattern.isBlank_iff_mem.mpr hc),
      ih, List.cons_append]
  | @comment body more hbody _ ih =>
    -- The second slash is the first character inside the comment.
    have hrest : leadingBlank true ('/' :: (body ++ '\n' :: (more ++ text))) =
        '/' :: (body ++ '\n' :: (more ++ leadingBlank false text)) := by
      have hslash : '\n' ∉ '/' :: body := by simp [hbody]
      rw [← List.cons_append, leadingBlank_comment hslash, ih, List.cons_append]
    simp only [List.cons_append, List.append_assoc]
    rw [leadingBlank]
    simp [isBlank, hrest]

/-- Blank text that separates tokens is skipped. -/
private theorem Separator.behindBlank_append {gap : List Char} (h : Separator gap)
    (text : List Char) :
    behindBlank (gap ++ text) = behindBlank text := by
  rw [behindBlank, h.leadingBlank_append, List.length_append, ← List.drop_drop, List.drop_left]
  rfl

/-- A text behind a separator is read as it is without it, further on. -/
private theorem Lexes.behind_separator {before gap text : List Char} {tokens : List Token}
    (hgap : Separator gap) (h : Lexes (before ++ gap) text tokens) :
    Lexes before (gap ++ text) tokens := by
  have hbehind := hgap.behindBlank_append text
  have hbefore : before ++ gap ++ leadingBlank false text =
      before ++ leadingBlank false (gap ++ text) := by
    rw [hgap.leadingBlank_append, List.append_assoc]
  cases h with
  | done hend => exact .done (hbehind.trans hend)
  | token hstart hkind hmore =>
    rw [hbefore] at hmore ⊢
    exact .token (hbehind.trans hstart) hkind hmore

/-! ## Tokens alone -/

/-- A slash is a symbol of its own, whatever stands behind it. -/
private theorem scan_slash (rest : List Char) : scan '/' rest = ⟨.ok (.symbol .slash), ['/']⟩ := by
  cases rest with
  | nil => rfl
  | cons d rest => simp [scan, isWordStart, scanSymbol, Symbol.ofPair?, Symbol.ofChar?]

section Alone

variable {c : Char} {tail after : List Char} {kind : TokenKind}

/-- A blank character, or the end of the text, leaves a lexeme as it is. -/
private theorem scan_append_of_startsBlank (hscan : scan c tail = ⟨.ok kind, c :: tail⟩)
    (hafter : StartsBlank after) : scan c (tail ++ after) = ⟨.ok kind, c :: tail⟩ := by
  cases after with
  | nil => rw [List.append_nil, hscan]
  | cons b more =>
    have hb : isBlank b = true := Pattern.isBlank_iff_mem.mpr (hafter b rfl)
    have hok : (scan c tail).result = .ok kind := by rw [hscan]
    rw [scan_append_blank hb hok, hscan]

/-- And it does not make the lexeme the start of a comment. -/
private theorem leadingBlank_lexeme (hblank : isBlank c = false)
    (hscan : scan c tail = ⟨.ok kind, c :: tail⟩) (hafter : StartsBlank after) :
    leadingBlank false (c :: (tail ++ after)) = [] := by
  have hcomment : ¬ (c = '/' ∧ (tail ++ after).head? = some '/') := by
    intro h
    obtain ⟨rfl, hhead⟩ := h
    rw [scan_slash, Scan.mk.injEq] at hscan
    obtain rfl : [] = tail := (List.cons.inj hscan.2).2
    exact absurd (hafter '/' hhead) (by decide)
  rw [leadingBlank, if_neg (by decide), if_neg (by simp [hblank]), if_neg (by simpa using hcomment)]

/-- So the lexeme is read, and reading goes on behind it. -/
theorem Lexes.token_alone {before : List Char} {tokens : List Token} (hblank : isBlank c = false)
    (hscan : scan c tail = ⟨.ok kind, c :: tail⟩) (hafter : StartsBlank after)
    (hrest : Lexes (before ++ c :: tail) after tokens) :
    Lexes before (c :: tail ++ after) (.behind before kind (c :: tail) :: tokens) := by
  have hskip := leadingBlank_lexeme hblank hscan hafter
  have hlonger := scan_append_of_startsBlank hscan hafter
  exact token_here tail hskip hlonger hrest

end Alone

/-! ## The new layout -/

/-- Tokens that stand alone are read again from their lexemes, by induction on the tokens. -/
private theorem exists_lexes_spread {tokens : List Token}
    (halone : ∀ t ∈ tokens, StandsAlone (.ok t))
    {gaps : List (List Char)} (hlength : gaps.length = tokens.length)
    (hgaps : ∀ gap ∈ gaps, Separator gap ∧ StartsBlank gap)
    (hinner : ∀ gap ∈ gaps.dropLast, gap ≠ []) (before : List Char) :
    ∃ again, Lexes before (spread tokens gaps) again ∧
      again.map Token.kind = tokens.map Token.kind ∧
      again.map Token.lexeme = tokens.map Token.lexeme := by
  induction tokens generalizing gaps before with
  | nil => exact ⟨[], .done rfl, rfl, rfl⟩
  | cons t tokens ih =>
    obtain ⟨gap, gaps, rfl⟩ := List.exists_cons_of_length_eq_add_one hlength
    obtain ⟨⟨hgap, hblank⟩, hmore⟩ := List.forall_mem_cons.mp hgaps
    obtain ⟨⟨c, tail, hlexeme, hc, hscan⟩, hothers⟩ := List.forall_mem_cons.mp halone
    change t.lexeme.toList = c :: tail at hlexeme
    change scan c tail = ⟨.ok t.kind, c :: tail⟩ at hscan
    have hlength' : gaps.length = tokens.length := by simpa using hlength
    have hinner' : ∀ gap ∈ gaps.dropLast, gap ≠ [] := by
      intro gap' hmem
      cases gaps with
      | nil => cases hmem
      | cons gap₂ gaps => exact hinner gap' (List.mem_cons_of_mem gap hmem)
    obtain ⟨again, hagain, hkinds, hlexemes⟩ :=
      ih hothers hlength' hmore hinner' (before ++ c :: tail ++ gap)
    -- Behind the lexeme stands a blank character or nothing: only the last gap may be empty.
    have hafter : StartsBlank (gap ++ spread tokens gaps) := by
      cases gap with
      | cons b gap => exact hblank
      | nil =>
        cases tokens with
        | nil => exact fun _ h => nomatch h
        | cons t₂ tokens =>
          obtain ⟨gap₂, gaps, rfl⟩ := List.exists_cons_of_length_eq_add_one hlength'
          exact absurd rfl (hinner [] List.mem_cons_self)
    refine ⟨.behind before t.kind (c :: tail) :: again, ?_, ?_, ?_⟩
    · have htext : spread (t :: tokens) (gap :: gaps) =
          c :: tail ++ (gap ++ spread tokens gaps) := by
        simp [spread, hlexeme]
      rw [htext]
      exact .token_alone hc hscan hafter (.behind_separator hgap hagain)
    · rw [List.map_cons, List.map_cons, hkinds]
      rfl
    · have hsame : String.ofList (c :: tail) = t.lexeme := by
        rw [← hlexeme, String.ofList_toList]
      rw [List.map_cons, List.map_cons, hlexemes, ← hsame]
      rfl

/-- If a source text has tokens, then their lexemes, with separators in front of, between and behind
    them that start with a blank character where they follow a lexeme, are read as tokens of the
    same kinds with the same lexemes. -/
theorem readTokens_spread {source : String} {tokens : List Token} {first : List Char}
    {gaps : List (List Char)} (hread : readTokens source = .ok tokens) (hfirst : Separator first)
    (hlength : gaps.length = tokens.length)
    (hgaps : ∀ gap ∈ gaps, Separator gap ∧ StartsBlank gap)
    (hinner : ∀ gap ∈ gaps.dropLast, gap ≠ []) :
    ∃ again, readTokens (String.ofList (first ++ spread tokens gaps)) = .ok again ∧
      again.map Token.kind = tokens.map Token.kind ∧
      again.map Token.lexeme = tokens.map Token.lexeme := by
  have halone : ∀ t ∈ tokens, StandsAlone (.ok t) := fun _ => standsAlone_of_readTokens hread
  obtain ⟨again, hagain, hsame⟩ := exists_lexes_spread halone hlength hgaps hinner ([] ++ first)
  refine ⟨again, ?_, hsame⟩
  rw [readTokens_iff_lexes, String.toList_ofList]
  exact Lexes.behind_separator hfirst hagain

/-- A quotient of a name and a string that looks like a comment, written without any blank text,
    with comments in front of it and behind the slash, and a tab behind the name. -/
theorem readTokens_spread_quotient :
    let tokens : List Token := [⟨.identifier "x", "x", 1, 1⟩, ⟨.symbol .slash, "/", 1, 2⟩,
      ⟨.literal (.string "//"), "\"//\"", 1, 3⟩]
    readTokens "x/\"//\"" = .ok tokens ∧
      ∃ again, readTokens "// a\nx\t/ // b\n\"//\"" = .ok again ∧
        again.map Token.kind = tokens.map Token.kind ∧
        again.map Token.lexeme = tokens.map Token.lexeme := by
  intro tokens
  have hread : readTokens "x/\"//\"" = .ok tokens := by decide +kernel
  have hcomment (body : List Char) (h : '\n' ∉ body) : Separator ('/' :: '/' :: (body ++ ['\n'])) :=
    .comment h .nil
  let gaps := [['\t'], [' ', '/', '/', ' ', 'b', '\n'], []]
  have hgaps : ∀ gap ∈ gaps, Separator gap ∧ StartsBlank gap := by
    simp only [gaps, List.forall_mem_cons]
    exact ⟨⟨.char (by simp) .nil, by simp [StartsBlank]⟩,
      ⟨.char (by simp) (hcomment [' ', 'b'] (by simp)), by simp [StartsBlank]⟩,
      ⟨.nil, by simp [StartsBlank]⟩, nofun⟩
  have hagain := readTokens_spread hread (hcomment [' ', 'a'] (by simp)) rfl hgaps (by decide)
  -- The text with these separators, spelled out.
  have htext : String.ofList ('/' :: '/' :: ([' ', 'a'] ++ ['\n']) ++ spread tokens gaps) =
      "// a\nx\t/ // b\n\"//\"" := by decide +kernel
  rw [htext] at hagain
  exact ⟨hread, hagain⟩

end Script
