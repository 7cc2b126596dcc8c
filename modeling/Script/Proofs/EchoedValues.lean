import Script.Proofs.ActionSteps
import Script.Proofs.GrammarComplete
import Script.Proofs.TokenPatterns
import Script.Proofs.TokenReading

/-!
# Echoed values as source text

The text that a value is echoed as is source text for it, if a literal can write the value at all:
floats and functions are left out, and so are the characters and strings that would end their own
literal, and the integer whose negation is too large. The text is followed from its lexemes through
the grammar to its evaluation. A negative number is the only value whose text is more than one
token: it is read as the negation of a literal.

## Key results

- `spells_reserved`, `spells_number`, `spells_char`, `spells_string`: the literals as lexemes
- `parse_literal`, `parse_negation`: what a literal in front of a semicolon is read as
- `run_echo`: running the text of a value gives the value and changes nothing
-/

namespace Script

/-! ## Lexemes in front of a semicolon -/

/-- In front of a semicolon, the text is the lexeme of one token, and no blank text. -/
def Spells : List Char → TokenKind → Prop
  | [], _ => False
  | c :: tail, kind =>
    isBlank c = false ∧ c ≠ '/' ∧ scan c (tail ++ [';']) = ⟨.ok kind, c :: tail⟩

/-- Text that starts with neither a blank character nor a comment has no blank text in front. -/
private theorem leadingBlank_eq_nil {c : Char} (hblank : isBlank c = false) (hslash : c ≠ '/')
    (rest : List Char) : leadingBlank false (c :: rest) = [] := by
  simp [leadingBlank, hblank, hslash]

namespace Lexes

variable {text : List Char} {tokens : List Token}

/-- A semicolon at the end is the last token. -/
theorem semicolon (before : List Char) :
    Lexes before [';'] [.behind before (.symbol .semicolon) [';']] :=
  token_here [] rfl rfl (.done rfl)

/-- No symbol of two characters starts with a minus sign. -/
theorem minus (before : List Char) (h : Lexes (before ++ ['-']) text tokens) :
    Lexes before ('-' :: text) (.behind before (.symbol .minus) ['-'] :: tokens) := by
  refine token_here [] (leadingBlank_eq_nil (by decide) (by decide) text) ?_ h
  cases text with
  | nil => rfl
  | cons d more => simp [scan, isWordStart, scanSymbol, Symbol.ofPair?, Symbol.ofChar?]

/-- A text that spells a token and a semicolon behind it are these two tokens. -/
theorem spelled {kind : TokenKind} (h : Spells text kind) (before : List Char) :
    Lexes before (text ++ [';'])
      [.behind before kind text, .behind (before ++ text) (.symbol .semicolon) [';']] := by
  cases text with
  | nil => exact h.elim
  | cons c tail =>
    obtain ⟨hblank, hslash, hscan⟩ := h
    exact token_here tail (leadingBlank_eq_nil hblank hslash _) hscan (semicolon _)

end Lexes

/-! ## Literals as lexemes -/

/-- Characters of a class in front of a semicolon. -/
private theorem run_before_semicolon {p : Char → Prop} {run : List Char} (hrun : ∀ c ∈ run, p c)
    (hp : ¬ p ';') : Pattern.Run p run [';'] := by
  refine ⟨hrun, fun c hc => ?_⟩
  obtain rfl : ';' = c := by simpa using hc
  exact hp

/-- A character of a class without blanks and the slash starts a lexeme. -/
private theorem starts_lexeme {p : Char → Bool} {c : Char} (hc : p c = true)
    (hp : [' ', '\t', '\r', '\x0c', '\n', '/'].any p = false) :
    isBlank c = false ∧ c ≠ '/' := by
  have hnot : c ∉ [' ', '\t', '\r', '\x0c', '\n', '/'] :=
    fun hmem => List.any_eq_false.mp hp c hmem hc
  simpa [isBlank, and_assoc] using hnot

/-- A word spells the token that words of its text are. -/
private theorem spells_word {c : Char} {tail : List Char} (hc : isWordStart c = true)
    (htail : ∀ d ∈ tail, isWordRest d = true) :
    Spells (c :: tail) (.ofWord (String.ofList (c :: tail))) := by
  obtain ⟨hblank, hslash⟩ := starts_lexeme hc (by decide)
  have hrun : Pattern.Run Pattern.WordPart tail [';'] :=
    run_before_semicolon (fun d hd => (Pattern.isWordRest_iff d).mp (htail d hd))
      (mt (Pattern.isWordRest_iff ';').mpr (by decide))
  exact ⟨hblank, hslash, Pattern.scan_of_wordStart (Pattern.isWordStart_iff.mp hc) hrun⟩

/-- The reserved words, the type names and the word literals among them. -/
theorem spells_reserved {word : String} {kind : TokenKind}
    (h : (word, kind) ∈ TokenKind.reserved) : Spells word.toList kind := by
  -- All reserved words are words, and are read as what they are reserved for.
  have hwords : ∀ entry ∈ TokenKind.reserved,
      entry.1.toList.head?.any isWordStart = true ∧ entry.1.toList.all isWordRest = true ∧
        TokenKind.ofWord entry.1 = entry.2 := by decide +kernel
  obtain ⟨hstart, hrest, hkind⟩ := hwords _ h
  cases htext : word.toList with
  | nil => simp [htext] at hstart
  | cons c tail =>
    simp only [htext, List.head?_cons, Option.any_some, List.all_cons, Bool.and_eq_true,
      List.all_eq_true] at hstart hrest
    have hspells := spells_word hstart hrest.2
    rwa [← htext, String.ofList_toList, hkind, htext] at hspells

/-- The digits of a number, if it is not too large. -/
theorem spells_number {n : Nat} (hn : n ≤ maxInteger) :
    Spells (Nat.toDigits 10 n) (.literal (.integer (Int32.ofNat n))) := by
  have hdigits : ∀ c ∈ Nat.toDigits 10 n, c.isDigit = true :=
    fun c hc => Nat.isDigit_of_mem_toDigits (by decide) (by decide) hc
  have hvalue : digitsValue (Nat.toDigits 10 n) = n := Nat.ofDigitChars_ten_toDigits
  cases htext : Nat.toDigits 10 n with
  | nil => exact absurd htext Nat.toDigits_ne_nil
  | cons c tail =>
    rw [htext] at hdigits hvalue
    obtain ⟨hc, htail⟩ := List.forall_mem_cons.mp hdigits
    obtain ⟨hblank, hslash⟩ := starts_lexeme hc (by decide)
    refine ⟨hblank, hslash, ?_⟩
    -- The digits end at the semicolon, and no point follows them.
    have hrun : Pattern.Run Pattern.Digit tail [';'] :=
      run_before_semicolon (fun d hd => (Pattern.isDigit_iff d).mp (htail d hd)) (by decide)
    rw [Pattern.scan_of_digit ((Pattern.isDigit_iff c).mp hc),
      Pattern.scanNumber_of_run c hrun (by decide)]
    simp [scanInteger, hvalue, hn]

/-- A character between apostrophes spells its literal, unless it is an apostrophe itself. -/
theorem spells_char {c : Char} (hc : c ≠ '\'') :
    Spells ['\'', c, '\''] (.literal (.char c)) := by
  refine ⟨by decide, by decide, ?_⟩
  rw [Pattern.scan_apostrophe]
  simp [scanChar]

/-- A text between quotes spells its literal, if there is no quote in it. -/
theorem spells_string {body : List Char} (hbody : '"' ∉ body) :
    Spells ('"' :: (body ++ ['"'])) (.literal (.string (String.ofList body))) := by
  refine ⟨by decide, by decide, ?_⟩
  -- Nothing in the string ends it but the quote behind it.
  rw [Pattern.scan_quote, List.append_assoc, List.singleton_append, Pattern.scanString_closed hbody]

/-! ## Literals as programs -/

namespace Grammar

/-- A single operand is a chain of every level. -/
theorem Derives.chain {level : Nat} {tokens : List Token} {e : Expr}
    (h : Derives level .unary tokens e) (n : Nat) : Derives level (.chain n) tokens e := by
  induction n with
  | zero => exact .operand h
  | succ n ih => exact .single ih

/-- A program of one statement, which is an expression without binary operators. -/
private theorem derivesProgram_unary {first semicolon : Token} {tokens : List Token} {e : Expr}
    (h : Derives 2 .unary (first :: tokens) e) (hsemi : semicolon.kind = .symbol .semicolon) :
    DerivesProgram (first :: (tokens ++ [semicolon])) [.expression e first.line] := by
  refine ⟨[(first :: (tokens ++ [semicolon]), .expression e first.line)], ?_, by simp, rfl⟩
  intro part hpart
  obtain rfl := List.mem_singleton.mp hpart
  exact .expression (by decide) (.plain (by decide) (.untested (h.chain 8))) hsemi

end Grammar

/-- A text that spells a literal is a program of this literal, with a semicolon behind it. -/
theorem parse_literal {source : String} {text : List Char} {value : Literal}
    (hsource : source.toList = text ++ [';']) (h : Spells text (.literal value)) :
    parse source = .ok [.expression (.literal value 1) 1] := by
  have htokens := Lexes.spelled h []
  rw [← hsource] at htokens
  refine parse_ok_iff.mpr ⟨_, [], (readTokens_iff_lexes _ _).mpr htokens, ?_⟩
  exact Grammar.program_complete (Grammar.derivesProgram_unary (.bare (.literal rfl)) rfl)

/-- A minus sign before a text that spells an integer is a program of this negation. -/
theorem parse_negation {source : String} {text : List Char} {n : Int32}
    (hsource : source.toList = '-' :: (text ++ [';'])) (h : Spells text (.literal (.integer n))) :
    parse source = .ok [.expression (.unary .negate (.literal (.integer n) 1) 1) 1] := by
  have htokens := Lexes.minus [] (Lexes.spelled h _)
  rw [← hsource] at htokens
  refine parse_ok_iff.mpr ⟨_, [], (readTokens_iff_lexes _ _).mpr htokens, ?_⟩
  exact Grammar.program_complete (Grammar.derivesProgram_unary
    (.unary (by decide) (.negateInteger n) (.literal rfl)) rfl)

/-! ## Literals evaluated -/

namespace Evaluation

open Script.Action

variable {ctx : Context} {fuel : Nat} {m : Machine}

/-- An expression that is allowed, evaluates by its form and changes nothing. -/
private theorem eval_of_evalForm {e : Expr} {v : Value} (hm : m.nesting < ctx.limits.maxNesting)
    (h : evalForm ctx (fun e => eval ctx fuel e) (fun s => exec ctx fuel s) e
      { m with nesting := m.nesting + 1 } = some (.ok v, { m with nesting := m.nesting + 1 })) :
    eval ctx (fuel + 1) e m = some (.ok v, m) := by
  rw [eval, inExpression_eq, below_of_lt hm, nested, around, h]
  rfl

/-- A literal has its value, if there is room for one more level. -/
private theorem eval_literal {value : Literal} {line : Nat}
    (hm : m.nesting < ctx.limits.maxNesting) :
    eval ctx (fuel + 1) (.literal value line) m = some (.ok (.ofLiteral value), m) :=
  eval_of_evalForm hm rfl

/-- A negated integer has the negated value, if there is room for two more levels. -/
private theorem eval_negation {n : Int32} {line line' : Nat}
    (hm : m.nesting + 1 < ctx.limits.maxNesting) :
    eval ctx (fuel + 2) (.unary .negate (.literal (.integer n) line) line') m =
      some (.ok (.integer (-n)), m) := by
  refine eval_of_evalForm (by omega) ?_
  rw [evalForm, bind_eq_some]
  exact .inr ⟨_, _, eval_literal hm, rfl⟩

end Evaluation

/-- A source text that is a single expression has its value. -/
private theorem run_expression {ctx : Context} {fuel : Nat} {source : String} {e : Expr}
    {line : Nat} {s : Session} {v : Value} (hparse : parse source = .ok [.expression e line])
    (heval : Evaluation.eval ctx fuel e (.start s) = some (.ok v, .start s)) :
    run ctx (fuel + 1) source s = some (.ok v, s) := by
  -- The value of the expression is that of the statement, and the statement is the last one.
  have hexec : Evaluation.exec ctx (fuel + 1) (.expression e line) (.start s) =
      some (.ok (.normal v), .start s) := by
    rw [Evaluation.exec, Evaluation.execForm, Action.bind_eq_some]
    exact .inr ⟨v, _, heval, rfl⟩
  have hsequence : Evaluation.sequence (Evaluation.exec ctx (fuel + 1)) [.expression e line]
      (.start s) = some (.ok (.normal v), .start s) := by
    rw [Evaluation.sequence, Evaluation.sequenceFrom, Action.bind_eq_some]
    exact .inr ⟨_, _, hexec, rfl⟩
  simp only [run, hparse, execute, hsequence]
  rfl

/-! ## Echoed values -/

/-- The values that can be written down as they are echoed. -/
def Value.Writable : Value → Prop
  | .null => True
  | .bool _ => True
  | .integer n => n.toInt ≠ -2147483648
  | .char c => c ≠ '\''
  | .string s => '"' ∉ s.toList
  | .type kind => kind ∈ [.null, .integer, .float, .char, .bool, .string]
  | .float _ => False
  | .function _ => False

instance Value.decidableWritable : (v : Value) → Decidable v.Writable
  | .null => .isTrue trivial
  | .bool _ => .isTrue trivial
  | .integer n => inferInstanceAs (Decidable (n.toInt ≠ -2147483648))
  | .char c => inferInstanceAs (Decidable (c ≠ '\''))
  | .string s => inferInstanceAs (Decidable ('"' ∉ s.toList))
  | .type kind =>
    inferInstanceAs (Decidable (kind ∈ [.null, .integer, .float, .char, .bool, .string]))
  | .float _ => .isFalse id
  | .function _ => .isFalse id

/-- How an integer is written: its digits, or a minus sign in front of those of its negation. -/
private theorem echo_integer_cases {n : Int32} (h : n.toInt ≠ -2147483648) :
    ∃ k ≤ maxInteger,
      (Value.integer n).echo.toList = Nat.toDigits 10 k ∧ Int32.ofNat k = n ∨
        (Value.integer n).echo.toList = '-' :: Nat.toDigits 10 k ∧ -Int32.ofNat k = n := by
  have hlt := n.toInt_lt
  have hle := n.le_toInt
  have hecho : (Value.integer n).echo = n.toInt.repr := rfl
  cases hn : n.toInt with
  | ofNat k =>
    have hk : k < 2 ^ 31 := by
      rw [Int.ofNat_eq_natCast] at hn
      omega
    refine ⟨k, by unfold maxInteger; omega, .inl ⟨?_, ?_⟩⟩
    · rw [hecho, hn]
      exact Nat.toList_repr
    · rw [← Int32.toInt_inj, Int32.toInt_ofNat_of_lt hk, hn]
      rfl
  | negSucc k =>
    -- The smallest integer is left out, since its negation is no literal.
    have hk : k + 1 < 2 ^ 31 := by omega
    refine ⟨k + 1, by unfold maxInteger; omega, .inr ⟨?_, ?_⟩⟩
    · rw [hecho, hn]
      simp [Int.repr, Nat.toList_repr]
    · rw [← Int32.toInt_inj, Int32.toInt_neg, Int32.toInt_ofNat_of_lt hk, hn,
        Int.bmod_eq_of_le (by omega) (by omega)]
      rfl

/-- The text that a value is echoed as, with a semicolon behind it, is source text for the value,
    and running it leaves the session as it is. -/
theorem run_echo (ctx : Context) (hnesting : 2 ≤ ctx.limits.maxNesting) (s : Session) (v : Value)
    (hv : v.Writable) (fuel : Nat) (hfuel : 3 ≤ fuel) :
    run ctx fuel (v.echo ++ ";") s = some (.ok v, s) := by
  obtain ⟨fuel, rfl⟩ := Nat.exists_eq_add_of_le' hfuel
  have hstart : (Machine.start s).nesting + 1 < ctx.limits.maxNesting := hnesting
  -- All values but the negative numbers are single literals.
  have hliteral : ∀ (value : Literal) {text : List Char}, v.echo.toList = text →
      Spells text (.literal value) → run ctx (fuel + 3) (v.echo ++ ";") s =
        some (.ok (.ofLiteral value), s) := by
    intro value text htext hspells
    refine run_expression (parse_literal ?_ hspells) (Evaluation.eval_literal (by omega))
    rw [String.toList_append, htext]
    rfl
  cases v with
  | null => exact hliteral .null rfl (spells_reserved (by decide))
  | bool b =>
    cases b with
    | false => exact hliteral (.bool false) rfl (spells_reserved (by decide))
    | true => exact hliteral (.bool true) rfl (spells_reserved (by decide))
  | char c => exact hliteral (.char c) (by simp [Value.echo]) (spells_char hv)
  | string text =>
    have hrun := hliteral _ (by simp [Value.echo]) (spells_string hv)
    rwa [String.ofList_toList] at hrun
  | type kind =>
    have hreserved : ∀ kind ∈ [Kind.null, .integer, .float, .char, .bool, .string],
        (kind.name, .literal (.type kind)) ∈ TokenKind.reserved := by decide
    exact hliteral (.type kind) rfl (spells_reserved (hreserved kind hv))
  | integer n =>
    -- The text of a negative number is two tokens, and evaluating it opens a second level.
    obtain ⟨k, hk, ⟨htext, rfl⟩ | ⟨htext, rfl⟩⟩ := echo_integer_cases hv
    · exact hliteral _ htext (spells_number hk)
    · refine run_expression (parse_negation ?_ (spells_number hk)) (Evaluation.eval_negation hstart)
      rw [String.toList_append, htext]
      rfl
  | float x => exact hv.elim
  | function f => exact hv.elim

/-- A negative number, and a string with a line feed and the marks of a comment and of a character
    in it, with limits that leave room for nothing more. -/
theorem run_echo_negative_and_string :
    let ctx : Context := ⟨⟨0, 2⟩, fun _ _ line => .error ⟨.assertionFailed, line⟩⟩
    run ctx 3 "-2147483647;" .standard = some (.ok (.integer (-2147483647)), .standard) ∧
      run ctx 3 "\"it's\n// one\";" .standard =
        some (.ok (.string "it's\n// one"), .standard) := by
  intro ctx
  have hnumber := run_echo ctx (by decide) .standard (.integer (-2147483647)) (by decide) 3
    (by decide)
  have hstring := run_echo ctx (by decide) .standard (.string "it's\n// one") (by decide) 3
    (by decide)
  exact ⟨hnumber, hstring⟩

end Script
