import Mathlib.Algebra.Group.Nat.Defs
import Script.Proofs.CursorPositions

/-!
# Token patterns

`Pattern.Reads` lists what a text that starts with neither blank text nor a comment is read as: one
rule for each kind of lexeme, with what ends it. The classes of characters, the value of digits, the
reserved words and the symbols are written out here on their own, so that the rules say which lexeme
is read without saying how it is found. That the lexer keeps the same words and symbols is proved,
by `Pattern.Reserved.ofWord_eq`, `Pattern.ofWord_eq_identifier` and `Pattern.mem_signs_iff`.

## Key results

- `Pattern.Reads.scan_eq` / `Pattern.reads_scan`: a scan follows the rules, and only them
- `Pattern.reads_iff`: the rules leave no choice
- `Pattern.Reads.alone`: a lexeme is read whole when it stands alone
- `Pattern.Reads.keyword_lexeme` / `Pattern.Reads.symbol_lexeme`: lexemes with a fixed spelling
-/

namespace Script

/-! ## The rules -/

namespace Pattern

/-- An ASCII letter. -/
def Letter (c : Char) : Prop :=
  'A' ≤ c ∧ c ≤ 'Z' ∨ 'a' ≤ c ∧ c ≤ 'z'

/-- An ASCII digit. -/
def Digit (c : Char) : Prop :=
  '0' ≤ c ∧ c ≤ '9'

/-- A character that a word may start with. -/
def WordStart (c : Char) : Prop :=
  Letter c ∨ c = '_' ∨ c = '$'

/-- A character that a word may go on with. -/
def WordPart (c : Char) : Prop :=
  WordStart c ∨ Digit c

instance : DecidablePred Digit := fun c => inferInstanceAs (Decidable ('0' ≤ c ∧ c ≤ '9'))

/-- The number that decimal digits write: each digit counts by its place. -/
def decimalValue : List Char → Nat
  | [] => 0
  | d :: rest => (d.toNat - '0'.toNat) * 10 ^ rest.length + decimalValue rest

/-- Characters of a class that what stands behind them does not continue. -/
structure Run (p : Char → Prop) (run after : List Char) : Prop where
  all : ∀ c ∈ run, p c
  stops : ∀ c ∈ after.head?, ¬ p c

/-- The words that are no identifiers, with what they are instead. A type name is written all in
    capitals or all in small letters, but `null` is the null literal. -/
def reservedWords : List (String × TokenKind) :=
  [("true", .literal (.bool true)), ("false", .literal (.bool false)), ("null", .literal .null),
    ("_", .symbol .underscore),
    ("INT", .literal (.type .integer)), ("int", .literal (.type .integer)),
    ("FLT", .literal (.type .float)), ("flt", .literal (.type .float)),
    ("CHR", .literal (.type .char)), ("chr", .literal (.type .char)),
    ("STR", .literal (.type .string)), ("str", .literal (.type .string)),
    ("BOOL", .literal (.type .bool)), ("bool", .literal (.type .bool)),
    ("NULL", .literal (.type .null)),
    ("var", .keyword .kwVar), ("fun", .keyword .kwFun), ("if", .keyword .kwIf),
    ("else", .keyword .kwElse), ("while", .keyword .kwWhile), ("match", .keyword .kwMatch),
    ("return", .keyword .kwReturn), ("typeof", .keyword .kwTypeof), ("is", .keyword .kwIs),
    ("and", .keyword .kwAnd), ("or", .keyword .kwOr), ("xor", .keyword .kwXor),
    ("not", .keyword .kwNot)]

/-- The operators and the punctuation. The underscore is not among them, since it starts a word. -/
def signs : List (String × Symbol) :=
  [("+", .plus), ("-", .minus), ("*", .star), ("/", .slash), ("%", .percent), ("^", .caret),
    ("=", .assign), ("==", .equal), ("!=", .notEqual), (">", .greater), (">=", .greaterEqual),
    ("<", .less), ("<=", .lessEqual), ("=>", .arrow), ("(", .leftParen), (")", .rightParen),
    ("\x7b", .leftBrace), ("\x7d", .rightBrace), ("[", .leftBracket), ("]", .rightBracket),
    (",", .comma), (";", .semicolon), (":", .colon)]

/-- The word is no identifier, but of the given kind. -/
def Reserved (word : String) (kind : TokenKind) : Prop :=
  (word, kind) ∈ reservedWords

/-- The text is read as a token or fault with a lexeme. -/
inductive Reads : List Char → Except LexFault TokenKind → List Char → Prop where
  | reserved {c : Char} {tail after : List Char} {kind : TokenKind} :
      WordStart c → Run WordPart tail after → Reserved (String.ofList (c :: tail)) kind →
      Reads (c :: (tail ++ after)) (.ok kind) (c :: tail)
  | identifier {c : Char} {tail after : List Char} :
      WordStart c → Run WordPart tail after →
      (∀ kind, ¬ Reserved (String.ofList (c :: tail)) kind) →
      Reads (c :: (tail ++ after)) (.ok (.identifier (String.ofList (c :: tail)))) (c :: tail)
  | integer {d : Char} {tail after : List Char} {n : Int32} :
      Digit d → Run Digit tail after → after.head? ≠ some '.' →
      n.toInt = decimalValue (d :: tail) →
      Reads (d :: (tail ++ after)) (.ok (.literal (.integer n))) (d :: tail)
  | integerTooLarge {d : Char} {tail after : List Char} :
      Digit d → Run Digit tail after → after.head? ≠ some '.' →
      2147483647 < decimalValue (d :: tail) →
      Reads (d :: (tail ++ after)) (.error .integerTooLarge) (d :: tail)
  | float {d : Char} {tail fraction after : List Char} :
      Digit d → (∀ c ∈ tail, Digit c) → fraction ≠ [] → Run Digit fraction after →
      Reads (d :: (tail ++ '.' :: (fraction ++ after)))
        (.ok (.literal (.float (Float32.ofScientific (decimalValue (d :: (tail ++ fraction))) true
          fraction.length))))
        (d :: (tail ++ '.' :: fraction))
  | malformedNumber {d : Char} {tail after : List Char} :
      Digit d → (∀ c ∈ tail, Digit c) → (∀ c ∈ after.head?, ¬ Digit c) →
      Reads (d :: (tail ++ '.' :: after)) (.error .malformedNumber) (d :: (tail ++ ['.']))
  | string {body after : List Char} :
      '"' ∉ body →
      Reads ('"' :: (body ++ '"' :: after)) (.ok (.literal (.string (String.ofList body))))
        ('"' :: (body ++ ['"']))
  | unterminatedString {body : List Char} :
      '"' ∉ body → Reads ('"' :: body) (.error .unterminatedString) ('"' :: body)
  | char {c : Char} {after : List Char} :
      c ≠ '\'' →
      Reads ('\'' :: c :: '\'' :: after) (.ok (.literal (.char c))) ['\'', c, '\'']
  | quoteAtEnd : Reads ['\''] (.error .unterminatedChar) ['\'']
  | noChar {after : List Char} :
      Reads ('\'' :: '\'' :: after) (.error .unterminatedChar) ['\'', '\'']
  | unterminatedChar {c : Char} {after : List Char} :
      c ≠ '\'' → after.head? ≠ some '\'' →
      Reads ('\'' :: c :: after) (.error .unterminatedChar) ['\'', c]
  /-- The longest symbol that the text starts with. -/
  | symbol {spelling : String} {sign : Symbol} {after : List Char} :
      (spelling, sign) ∈ signs →
      (∀ other ∈ signs, other.1.toList <+: spelling.toList ++ after →
        other.1.length ≤ spelling.length) →
      Reads (spelling.toList ++ after) (.ok (.symbol sign)) spelling.toList
  /-- A character that starts nothing else. -/
  | unrecognized {c : Char} {after : List Char} :
      ¬ WordStart c → ¬ Digit c → c ≠ '"' → c ≠ '\'' →
      (∀ sign ∈ signs, ¬ sign.1.toList <+: c :: after) →
      Reads (c :: after) (.error .unrecognizedCharacter) [c]

/-- The text is a lexeme when it stands alone. -/
def IsLexeme (text : List Char) (result : Except LexFault TokenKind) : Prop :=
  Reads text result text

/-! ## Characters and values -/

/-- The digits of the lexer are those of the patterns. -/
theorem isDigit_iff (c : Char) : c.isDigit = true ↔ Digit c := by
  simp [Char.isDigit, Digit, Char.le_def]

/-- The letters of the lexer are those of the patterns. -/
private theorem isAlpha_iff {c : Char} : c.isAlpha = true ↔ Letter c := by
  show (decide (c.val ≥ 'A'.val ∧ c.val ≤ 'Z'.val) ||
    (decide (c.val ≥ 'a'.val) && decide (c.val ≤ 'z'.val))) = true ↔ Letter c
  simp [Letter, Char.le_def]

/-- The characters that start a word are those of the patterns. -/
theorem isWordStart_iff {c : Char} : isWordStart c = true ↔ WordStart c := by
  simp [isWordStart, isAlpha_iff, WordStart, or_assoc]

/-- The characters that go on with a word are those of the patterns. -/
theorem isWordRest_iff (c : Char) : isWordRest c = true ↔ WordPart c := by
  simp [isWordRest, WordPart, isWordStart_iff, isDigit_iff]

/-- The blank characters of the lexer, one by one. -/
theorem isBlank_iff_mem {c : Char} :
    isBlank c = true ↔ c ∈ [' ', '\t', '\r', '\x0c', '\n'] := by
  simp [isBlank, or_assoc]

/-- No digit starts a word. -/
private theorem Digit.not_wordStart {c : Char} (h : Digit c) : ¬ WordStart c := by
  intro hword
  simp only [Digit, WordStart, Letter, Char.le_def, UInt32.le_iff_toNat_le] at h hword
  rcases hword with (⟨hlow, -⟩ | ⟨hlow, -⟩) | rfl | rfl
  · exact absurd (Nat.le_trans hlow h.2) (by decide)
  · exact absurd (Nat.le_trans hlow h.2) (by decide)
  · exact absurd h.2 (by decide)
  · exact absurd h.1 (by decide)

/-- Reading digits from the left gives the same value as their places do. -/
private theorem digitsValue_eq (digits : List Char) : digitsValue digits = decimalValue digits := by
  -- What has been read so far counts by the places of the digits that follow it.
  have hfold : ∀ n, digits.foldl (fun n c => 10 * n + (c.toNat - '0'.toNat)) n =
      n * 10 ^ digits.length + decimalValue digits := by
    induction digits with
    | nil => intro n; simp [decimalValue]
    | cons d rest ih =>
      intro n
      rw [List.foldl_cons, ih, decimalValue, List.length_cons, Nat.pow_succ, Nat.add_mul,
        Nat.mul_comm 10 n, Nat.mul_assoc, Nat.mul_comm 10, Nat.add_assoc]
  simpa [digitsValue] using hfold 0

namespace Run

variable {p : Char → Prop} {q : Char → Bool} {run after : List Char}

/-- A run ends where the characters of its class end. -/
theorem takeWhile_eq (h : Run p run after) (hq : ∀ c, q c = true ↔ p c) :
    (run ++ after).takeWhile q = run := by
  have hrun : ∀ c ∈ run, q c = true := fun c hc => (hq c).mpr (h.all c hc)
  rw [List.takeWhile_append_of_pos hrun]
  cases after with
  | nil => simp
  | cons c rest =>
    have hc : ¬ q c = true := fun hc => h.stops c rfl ((hq c).mp hc)
    simp [hc]

/-- Behind a run stands what comes after it. -/
theorem dropWhile_eq (h : Run p run after) (hq : ∀ c, q c = true ↔ p c) :
    (run ++ after).dropWhile q = after := by
  have hparts := List.takeWhile_append_dropWhile (p := q) (l := run ++ after)
  rw [h.takeWhile_eq hq] at hparts
  exact List.append_cancel_left hparts

/-- Every text starts with a run of each class, which may be empty. -/
theorem exists_split (text : List Char) (hq : ∀ c, q c = true ↔ p c) :
    ∃ run after, text = run ++ after ∧ Run p run after := by
  refine ⟨text.takeWhile q, text.dropWhile q, List.takeWhile_append_dropWhile.symm,
    fun c hc => (hq c).mp (List.mem_takeWhile_imp hc), fun c hc hp => ?_⟩
  have hstop := List.head?_dropWhile_not q text
  rw [Option.mem_def.mp hc] at hstop
  simp [(hq c).mpr hp] at hstop

/-- At the end of a text every run ends. -/
private theorem at_end (h : ∀ c ∈ run, p c) : Run p run [] :=
  ⟨h, nofun⟩

end Run

/-! ## Words -/

/-- The lexer takes each reserved word for what it is. -/
theorem Reserved.ofWord_eq {word : String} {kind : TokenKind} (h : Reserved word kind) :
    TokenKind.ofWord word = kind := by
  have hwords : ∀ entry ∈ reservedWords, TokenKind.ofWord entry.1 = entry.2 := by decide +kernel
  exact hwords _ h

/-- And it keeps no other words. -/
theorem ofWord_eq_identifier {word : String} (h : ∀ kind, ¬ Reserved word kind) :
    TokenKind.ofWord word = .identifier word := by
  unfold TokenKind.ofWord
  cases hlookup : TokenKind.reserved.lookup word with
  | none => rfl
  | some kind =>
    obtain ⟨front, back, hlist, -⟩ := List.lookup_eq_some_iff.mp hlookup
    have hwords : ∀ entry ∈ TokenKind.reserved, entry ∈ reservedWords := by decide +kernel
    exact absurd (hwords _ (by rw [hlist]; simp)) (h kind)

/-! ## Symbols -/

/-- Each symbol but the underscore stands among the signs, as it is written. -/
theorem mem_signs_iff {spelling : String} {sign : Symbol} :
    (spelling, sign) ∈ signs ↔ spelling = sign.spelling ∧ sign ≠ .underscore := by
  constructor
  · intro h
    have hsigns : ∀ entry ∈ signs, entry.1 = entry.2.spelling ∧ entry.2 ≠ .underscore := by
      decide +kernel
    exact hsigns _ h
  · intro h
    obtain ⟨rfl, hnot⟩ := h
    cases sign with
    | underscore => exact absurd rfl hnot
    | _ => decide +kernel

/-- The underscore is left out, since it starts a word. -/
private theorem ofChar?_eq_some_iff {c : Char} {sign : Symbol} :
    Symbol.ofChar? c = some sign ↔ sign.spelling.toList = [c] ∧ sign ≠ .underscore := by
  constructor
  · intro h
    unfold Symbol.ofChar? at h
    split at h <;> cases h <;> decide
  · intro h
    obtain ⟨hspelling, hnot⟩ := h
    cases sign <;> simp [Symbol.spelling] at hspelling hnot
    all_goals subst hspelling; rfl

/-- Two characters make a sign if they spell it. -/
private theorem ofPair?_eq_some_iff {c d : Char} {sign : Symbol} :
    Symbol.ofPair? c d = some sign ↔ sign.spelling.toList = [c, d] := by
  constructor
  · intro h
    unfold Symbol.ofPair? at h
    split at h <;> cases h <;> decide
  · intro h
    cases sign <;> simp [Symbol.spelling] at h
    all_goals obtain ⟨rfl, rfl⟩ := h; rfl

/-- A symbol is one character or two. -/
private theorem spelling_eq_cons (sign : Symbol) :
    ∃ c tail, sign.spelling.toList = c :: tail ∧ tail.length ≤ 1 := by
  cases sign <;> exact ⟨_, _, rfl, by decide⟩

/-- Every sign has a character. -/
private theorem one_le_length_spelling (sign : Symbol) : 1 ≤ sign.spelling.length := by
  cases sign <;> decide

/-- No sign has more than two characters. -/
private theorem length_spelling_le (sign : Symbol) : sign.spelling.length ≤ 2 := by
  cases sign <;> decide

/-- No sign at the start of a text is longer than some length if no symbol is: the underscore, which
    is no sign, is as short as a symbol can be. -/
private theorem forall_signs_iff {text : List Char} {length : Nat} (hlength : 1 ≤ length) :
    (∀ entry ∈ signs, entry.1.toList <+: text → entry.1.length ≤ length) ↔
      ∀ sign : Symbol, sign.spelling.toList <+: text → sign.spelling.length ≤ length := by
  constructor
  · intro h sign
    by_cases hunder : sign = .underscore
    · subst hunder
      exact fun _ => hlength
    · exact h _ (mem_signs_iff.mpr ⟨rfl, hunder⟩)
  · intro h entry hentry
    obtain ⟨spelling, sign⟩ := entry
    obtain ⟨rfl, -⟩ := mem_signs_iff.mp hentry
    exact h sign

/-- The first character of a symbol starts nothing else. -/
private theorem starts_symbol {sign : Symbol} (hnot : sign ≠ .underscore) {c : Char}
    {tail : List Char} (h : sign.spelling.toList = c :: tail) :
    isWordStart c = false ∧ c.isDigit = false ∧ (c == '"') = false ∧ (c == '\'') = false := by
  cases sign with
  | underscore => exact absurd rfl hnot
  | _ => cases h; decide

/-- A symbol at the start of a text is its first character or its first two. -/
private theorem spelling_front {sign : Symbol} {c : Char} {rest : List Char}
    (h : sign.spelling.toList <+: c :: rest) :
    sign.spelling.toList = [c] ∨ rest.head?.bind (Symbol.ofPair? c) = some sign := by
  obtain ⟨first, tail, hspelling, hshort⟩ := spelling_eq_cons sign
  obtain ⟨more, hmore⟩ := h
  rw [hspelling, List.cons_append] at hmore
  obtain ⟨rfl, rfl⟩ := List.cons.inj hmore
  match tail, hshort with
  | [], _ => exact .inl hspelling
  | [d], _ => exact .inr (ofPair?_eq_some_iff.mpr hspelling)

/-- No symbol of two characters stands at the start of a text. -/
private theorem bind_ofPair?_eq_none_iff {c : Char} {rest : List Char} :
    rest.head?.bind (Symbol.ofPair? c) = none ↔
      ∀ sign : Symbol, sign.spelling.toList <+: c :: rest → sign.spelling.length ≤ 1 := by
  constructor
  · intro hnone sign hsign
    rcases spelling_front hsign with hone | hpair
    · rw [← String.length_toList, hone]
      simp
    · rw [hnone] at hpair
      cases hpair
  · -- Two characters that make a sign would be one of two characters in front of the text.
    intro hshort
    rw [Option.eq_none_iff_forall_ne_some]
    intro sign hpair
    obtain ⟨d, hd, hsign⟩ := Option.bind_eq_some_iff.mp hpair
    obtain ⟨more, rfl⟩ := List.head?_eq_some_iff.mp hd
    rw [ofPair?_eq_some_iff] at hsign
    have hlength := hshort sign (hsign ▸ ⟨more, rfl⟩)
    rw [← String.length_toList, hsign] at hlength
    simp at hlength

/-! ## The ways to scan -/

/-- Where a word starts, it is read as far as it goes. -/
theorem scan_of_wordStart {c : Char} {tail after : List Char} (h : WordStart c)
    (hrun : Run WordPart tail after) :
    scan c (tail ++ after) = ⟨.ok (.ofWord (String.ofList (c :: tail))), c :: tail⟩ := by
  rw [scan, if_pos (isWordStart_iff.mpr h), hrun.takeWhile_eq isWordRest_iff]

/-- Where a digit stands, a number is read. -/
theorem scan_of_digit {d : Char} (h : Digit d) (rest : List Char) :
    scan d rest = scanNumber d rest := by
  have hword : ¬ isWordStart d = true := fun hword => h.not_wordStart (isWordStart_iff.mp hword)
  rw [scan, if_neg hword, if_pos ((isDigit_iff d).mpr h)]

/-- Where a quote stands, a string is read. -/
theorem scan_quote (rest : List Char) : scan '"' rest = scanString rest := by
  simp [scan, isWordStart]

/-- Where an apostrophe stands, a character literal is read. -/
theorem scan_apostrophe (rest : List Char) : scan '\'' rest = scanChar rest := by
  simp [scan, isWordStart]

/-- Where none of these stand, a sign is read. -/
private theorem scan_of_not {c : Char} (hword : isWordStart c = false) (hdigit : c.isDigit = false)
    (hquote : (c == '"') = false) (happ : (c == '\'') = false) (rest : List Char) :
    scan c rest = scanSymbol c rest := by
  simp [scan, hword, hdigit, hquote, happ]

/-! ## Numbers, strings and symbols -/

/-- Digits whose value is a 32-bit integer are read as it. -/
private theorem scanInteger_eq {digits : List Char} {n : Int32}
    (h : n.toInt = decimalValue digits) :
    scanInteger digits = .ok (.literal (.integer n)) := by
  have hlt := n.toInt_lt
  have hvalue : Int32.ofNat (decimalValue digits) = n := by
    rw [← Int32.toInt_inj, Int32.toInt_ofNat_of_lt (by omega), h]
  rw [scanInteger, digitsValue_eq, hvalue, if_pos (by unfold maxInteger; omega)]

/-- Digits whose value is too large are refused. -/
private theorem scanInteger_of_large {digits : List Char} (h : 2147483647 < decimalValue digits) :
    scanInteger digits = .error .integerTooLarge := by
  rw [scanInteger, digitsValue_eq, if_neg (by unfold maxInteger; omega)]

/-- Digits without a point behind them are an integer. -/
theorem scanNumber_of_run {tail after : List Char} (d : Char) (h : Run Digit tail after)
    (hpoint : after.head? ≠ some '.') :
    scanNumber d (tail ++ after) = ⟨scanInteger (d :: tail), d :: tail⟩ := by
  rw [scanNumber, h.takeWhile_eq isDigit_iff, h.dropWhile_eq isDigit_iff]
  split
  · exact absurd rfl hpoint
  · rfl

/-- Digits with a point behind them are a number, with the digits behind the point as fraction. -/
private theorem scanNumber_of_point {tail fraction after : List Char} (d : Char)
    (htail : ∀ c ∈ tail, Digit c) (h : Run Digit fraction after) :
    scanNumber d (tail ++ '.' :: (fraction ++ after)) =
      ⟨scanFloat (d :: tail) fraction, d :: (tail ++ '.' :: fraction)⟩ := by
  have hwhole : Run Digit tail ('.' :: (fraction ++ after)) := by
    refine ⟨htail, fun c hc => ?_⟩
    obtain rfl : '.' = c := by simpa using hc
    decide
  rw [scanNumber, hwhole.takeWhile_eq isDigit_iff,
    hwhole.dropWhile_eq isDigit_iff]
  simp only [h.takeWhile_eq isDigit_iff, List.cons_append]

/-- What belongs to the body of a string. -/
private theorem bne_quote_iff (c : Char) : (c != '"') = true ↔ c ≠ '"' := by
  simp

/-- A string goes on up to the first quote behind it. -/
theorem scanString_closed {body : List Char} (h : '"' ∉ body) (after : List Char) :
    scanString (body ++ '"' :: after) =
      ⟨.ok (.literal (.string (String.ofList body))), '"' :: (body ++ ['"'])⟩ := by
  have hrun : Run (· ≠ '"') body ('"' :: after) :=
    ⟨fun c hc heq => h (heq ▸ hc), fun c hc => by simpa [eq_comm] using hc⟩
  rw [scanString, hrun.takeWhile_eq bne_quote_iff, hrun.dropWhile_eq bne_quote_iff]

/-- Without another quote the string is not closed. -/
theorem scanString_open {body : List Char} (h : '"' ∉ body) :
    scanString body = ⟨.error .unterminatedString, '"' :: body⟩ := by
  have hrun : Run (· ≠ '"') body [] := .at_end fun c hc heq => h (heq ▸ hc)
  have htake := hrun.takeWhile_eq bne_quote_iff
  have hdrop := hrun.dropWhile_eq bne_quote_iff
  rw [List.append_nil] at htake hdrop
  rw [scanString, htake, hdrop]

/-- A symbol of two characters comes before one of a single character. -/
private theorem scanSymbol_eq {c : Char} {tail after : List Char} {sign : Symbol}
    (hspelling : sign.spelling.toList = c :: tail) (hnot : sign ≠ .underscore)
    (hlongest : ∀ other : Symbol, other.spelling.toList <+: c :: (tail ++ after) →
      other.spelling.length ≤ sign.spelling.length) :
    scanSymbol c (tail ++ after) = ⟨.ok (.symbol sign), c :: tail⟩ := by
  have hfront : sign.spelling.toList <+: c :: (tail ++ after) := by
    rw [hspelling]
    exact List.prefix_append (c :: tail) after
  -- A sign of one character is read only where no sign of two characters stands.
  rcases spelling_front hfront with hone | hpair
  · obtain rfl : tail = [] := (List.cons.inj (hspelling.symm.trans hone)).2
    have hlength : sign.spelling.length = 1 := by
      rw [← String.length_toList, hone]
      rfl
    rw [hlength] at hlongest
    have hpair : after.head?.bind (Symbol.ofPair? c) = none :=
      bind_ofPair?_eq_none_iff.mpr hlongest
    simp [scanSymbol, hpair, ofChar?_eq_some_iff.mpr ⟨hone, hnot⟩]
  · obtain ⟨d, hd, hsign⟩ := Option.bind_eq_some_iff.mp hpair
    rw [ofPair?_eq_some_iff] at hsign
    obtain rfl : tail = [d] := (List.cons.inj (hspelling.symm.trans hsign)).2
    simp only [List.singleton_append, List.head?_cons, Option.bind_some] at hpair
    simp [scanSymbol, hpair]

/-! ## A scan follows the rules -/

/-- A text that is read by one of the rules is scanned so. -/
theorem Reads.scan_eq {text lexeme : List Char} {result : Except LexFault TokenKind}
    (h : Reads text result lexeme) :
    ∃ c rest, text = c :: rest ∧ scan c rest = ⟨result, lexeme⟩ := by
  -- One rule at a time: what it asks of the text is what the scan finds there.
  cases h with
  | reserved hc hrun hword =>
    refine ⟨_, _, rfl, ?_⟩
    rw [scan_of_wordStart hc hrun, hword.ofWord_eq]
  | identifier hc hrun hword =>
    refine ⟨_, _, rfl, ?_⟩
    rw [scan_of_wordStart hc hrun, ofWord_eq_identifier hword]
  | integer hd hrun hpoint hvalue =>
    refine ⟨_, _, rfl, ?_⟩
    rw [scan_of_digit hd, scanNumber_of_run _ hrun hpoint, scanInteger_eq hvalue]
  | integerTooLarge hd hrun hpoint hlarge =>
    refine ⟨_, _, rfl, ?_⟩
    rw [scan_of_digit hd, scanNumber_of_run _ hrun hpoint, scanInteger_of_large hlarge]
  | float hd htail hne hrun =>
    refine ⟨_, _, rfl, ?_⟩
    rw [scan_of_digit hd, scanNumber_of_point _ htail hrun, scanFloat, digitsValue_eq,
      if_neg (by simpa using hne), List.cons_append]
  | @malformedNumber d tail after hd htail hstops =>
    have hrun : Run Digit [] after := ⟨nofun, hstops⟩
    refine ⟨_, _, rfl, ?_⟩
    rw [scan_of_digit hd, ← List.nil_append after, scanNumber_of_point d htail hrun]
    rfl
  | string hbody =>
    refine ⟨_, _, rfl, ?_⟩
    rw [scan_quote, scanString_closed hbody]
  | unterminatedString hbody =>
    refine ⟨_, _, rfl, ?_⟩
    rw [scan_quote, scanString_open hbody]
  | char hc =>
    refine ⟨_, _, rfl, ?_⟩
    rw [scan_apostrophe]
    simp [scanChar]
  | quoteAtEnd => exact ⟨_, _, rfl, rfl⟩
  | noChar => exact ⟨_, _, rfl, rfl⟩
  | @unterminatedChar c after hc hafter =>
    refine ⟨_, _, rfl, ?_⟩
    rw [scan_apostrophe]
    cases after with
    | nil => simp [scanChar]
    | cons d more =>
      have hd : d ≠ '\'' := by simpa using hafter
      simp [scanChar, hd]
  | symbol hsign hlongest =>
    obtain ⟨rfl, hnot⟩ := mem_signs_iff.mp hsign
    rw [forall_signs_iff (one_le_length_spelling _)] at hlongest
    obtain ⟨c, tail, hspelling, -⟩ := spelling_eq_cons _
    obtain ⟨hword, hdigit, hquote, happ⟩ := starts_symbol hnot hspelling
    rw [hspelling, List.cons_append] at hlongest ⊢
    refine ⟨_, _, rfl, ?_⟩
    rw [scan_of_not hword hdigit hquote happ, scanSymbol_eq hspelling hnot hlongest]
  | @unrecognized c after hword hdigit hquote happ hsymbol =>
    refine ⟨_, _, rfl, ?_⟩
    have hchar : Symbol.ofChar? c = none := by
      rw [Option.eq_none_iff_forall_ne_some]
      intro sign hsign
      obtain ⟨hspelling, hnot⟩ := ofChar?_eq_some_iff.mp hsign
      apply hsymbol _ (mem_signs_iff.mpr ⟨rfl, hnot⟩)
      rw [hspelling]
      exact ⟨after, rfl⟩
    have hpair : after.head?.bind (Symbol.ofPair? c) = none :=
      bind_ofPair?_eq_none_iff.mpr ((forall_signs_iff (Nat.le_refl 1)).mp fun sign hsign hfront =>
        absurd hfront (hsymbol sign hsign))
    rw [scan_of_not (by simpa using mt isWordStart_iff.mp hword)
      (by simpa using mt (isDigit_iff c).mp hdigit) (by simpa using hquote) (by simpa using happ)]
    simp [scanSymbol, hpair, hchar]

/-- What is read as a number is one by the patterns, or has a fault that they name. -/
private theorem reads_scanNumber {d : Char} (hd : Digit d) (rest : List Char) :
    Reads (d :: rest) (scanNumber d rest).result (scanNumber d rest).lexeme := by
  obtain ⟨tail, after, rfl, hrun⟩ := Run.exists_split rest isDigit_iff
  by_cases hpoint : after.head? = some '.'
  · -- The digits behind the point are a run too, and may be none.
    obtain ⟨more, rfl⟩ := List.head?_eq_some_iff.mp hpoint
    obtain ⟨fraction, after, rfl, hmore⟩ := Run.exists_split more isDigit_iff
    rw [scanNumber_of_point d hrun.all hmore]
    cases fraction with
    | nil => exact .malformedNumber hd hrun.all hmore.stops
    | cons f more =>
      have hfloat := Reads.float hd hrun.all (List.cons_ne_nil f more) hmore
      rw [← digitsValue_eq] at hfloat
      exact hfloat
  · rw [scanNumber_of_run d hrun hpoint]
    by_cases hlarge : decimalValue (d :: tail) ≤ 2147483647
    · have hvalue : (Int32.ofNat (decimalValue (d :: tail))).toInt = decimalValue (d :: tail) :=
        Int32.toInt_ofNat_of_lt (by omega)
      rw [scanInteger_eq hvalue]
      exact .integer hd hrun hpoint hvalue
    · rw [Nat.not_le] at hlarge
      rw [scanInteger_of_large hlarge]
      exact .integerTooLarge hd hrun hpoint hlarge

/-- What is read as a string is one by the patterns, or is not closed. -/
private theorem reads_scanString (rest : List Char) :
    Reads ('"' :: rest) (scanString rest).result (scanString rest).lexeme := by
  by_cases hquote : '"' ∈ rest
  · obtain ⟨body, after, rfl, hbody⟩ := List.eq_append_cons_of_mem hquote
    rw [scanString_closed hbody]
    exact .string hbody
  · rw [scanString_open hquote]
    exact .unterminatedString hquote

/-- What is read as a character literal is one by the patterns, or has a fault that they name. -/
private theorem reads_scanChar (rest : List Char) :
    Reads ('\'' :: rest) (scanChar rest).result (scanChar rest).lexeme := by
  fun_cases scanChar rest with
  | case1 => exact .quoteAtEnd
  | case2 after => exact .noChar
  | case3 c after hc => exact .char hc
  | case4 c after hc hafter =>
    refine .unterminatedChar hc fun hhead => ?_
    obtain ⟨more, rfl⟩ := List.head?_eq_some_iff.mp hhead
    exact hafter more rfl

/-- What is read as a sign is the longest one by the patterns, or is none of them. -/
private theorem reads_scanSymbol {c : Char} (hword : ¬ WordStart c) (hdigit : ¬ Digit c)
    (hquote : c ≠ '"') (happ : c ≠ '\'') (rest : List Char) :
    Reads (c :: rest) (scanSymbol c rest).result (scanSymbol c rest).lexeme := by
  -- Two characters are tried before one, and no sign has more.
  cases hpair : rest.head?.bind (Symbol.ofPair? c) with
  | some sign =>
    obtain ⟨d, hd, hsign⟩ := Option.bind_eq_some_iff.mp hpair
    obtain ⟨more, rfl⟩ := List.head?_eq_some_iff.mp hd
    rw [ofPair?_eq_some_iff] at hsign
    have hnot : sign ≠ .underscore := by
      rintro rfl
      cases hsign
    have hreads : Reads (sign.spelling.toList ++ more) (.ok (.symbol sign))
        sign.spelling.toList := by
      refine .symbol (mem_signs_iff.mpr ⟨rfl, hnot⟩) ?_
      rw [forall_signs_iff (one_le_length_spelling sign)]
      intro other _
      have hlength := congrArg List.length hsign
      rw [String.length_toList] at hlength
      rw [hlength]
      exact length_spelling_le other
    rw [hsign] at hreads
    simp only [List.head?_cons, Option.bind_some] at hpair
    simpa [scanSymbol, hpair] using hreads
  | none =>
    have hshort := bind_ofPair?_eq_none_iff.mp hpair
    cases hchar : Symbol.ofChar? c with
    | some sign =>
      obtain ⟨hsign, hnot⟩ := ofChar?_eq_some_iff.mp hchar
      have hreads : Reads (sign.spelling.toList ++ rest) (.ok (.symbol sign))
          sign.spelling.toList := by
        refine .symbol (mem_signs_iff.mpr ⟨rfl, hnot⟩) ?_
        rw [forall_signs_iff (one_le_length_spelling sign)]
        intro other hother
        have hlength := congrArg List.length hsign
        rw [String.length_toList] at hlength
        rw [hsign] at hother
        rw [hlength]
        exact hshort other hother
      rw [hsign] at hreads
      simpa [scanSymbol, hpair, hchar] using hreads
    | none =>
      have hnone : ∀ sign ∈ signs, ¬ sign.1.toList <+: c :: rest := by
        intro entry hentry hfront
        obtain ⟨spelling, sign⟩ := entry
        obtain ⟨rfl, hnot⟩ := mem_signs_iff.mp hentry
        rcases spelling_front hfront with hone | htwo
        · rw [ofChar?_eq_some_iff.mpr ⟨hone, hnot⟩] at hchar
          cases hchar
        · rw [hpair] at htwo
          cases htwo
      simpa [scanSymbol, hpair, hchar] using Reads.unrecognized hword hdigit hquote happ hnone

/-- Every scan is by one of the rules. -/
theorem reads_scan (c : Char) (rest : List Char) :
    Reads (c :: rest) (scan c rest).result (scan c rest).lexeme := by
  -- The first character decides what is read, in the order in which the lexer looks.
  by_cases hword : WordStart c
  · obtain ⟨tail, after, rfl, hrun⟩ := Run.exists_split rest isWordRest_iff
    rw [scan_of_wordStart hword hrun]
    by_cases hreserved : ∃ kind, Reserved (String.ofList (c :: tail)) kind
    · obtain ⟨kind, hkind⟩ := hreserved
      rw [hkind.ofWord_eq]
      exact .reserved hword hrun hkind
    · rw [not_exists] at hreserved
      rw [ofWord_eq_identifier hreserved]
      exact .identifier hword hrun hreserved
  by_cases hdigit : Digit c
  · rw [scan_of_digit hdigit]
    exact reads_scanNumber hdigit rest
  by_cases hquote : c = '"'
  · rw [hquote, scan_quote]
    exact reads_scanString rest
  by_cases happ : c = '\''
  · rw [happ, scan_apostrophe]
    exact reads_scanChar rest
  · rw [scan_of_not (by simpa using mt isWordStart_iff.mp hword)
      (by simpa using mt (isDigit_iff c).mp hdigit) (by simpa using hquote) (by simpa using happ)]
    exact reads_scanSymbol hword hdigit hquote happ rest

/-- So a text is read in one way only. -/
theorem reads_iff {c : Char} {rest lexeme : List Char} {result : Except LexFault TokenKind} :
    Reads (c :: rest) result lexeme ↔
      result = (scan c rest).result ∧ lexeme = (scan c rest).lexeme := by
  constructor
  · intro h
    obtain ⟨c', rest', heq, hscan⟩ := h.scan_eq
    cases heq
    rw [hscan]
    exact ⟨rfl, rfl⟩
  · intro h
    rw [h.1, h.2]
    exact reads_scan c rest

/-- A lexeme is read whole when it stands alone. -/
theorem Reads.alone {text lexeme : List Char} {result : Except LexFault TokenKind}
    (h : Reads text result lexeme) : IsLexeme lexeme result := by
  unfold IsLexeme
  -- Without the text behind it, a run of characters ends where the text does.
  cases h with
  | reserved hc hrun hword =>
    have hreads := Reads.reserved hc (.at_end hrun.all) hword
    rwa [List.append_nil] at hreads
  | identifier hc hrun hword =>
    have hreads := Reads.identifier hc (.at_end hrun.all) hword
    rwa [List.append_nil] at hreads
  | integer hd hrun _ hvalue =>
    have hreads := Reads.integer hd (.at_end hrun.all) nofun hvalue
    rwa [List.append_nil] at hreads
  | integerTooLarge hd hrun _ hlarge =>
    have hreads := Reads.integerTooLarge hd (.at_end hrun.all) nofun hlarge
    rwa [List.append_nil] at hreads
  | float hd htail hne hrun =>
    have hreads := Reads.float hd htail hne (.at_end hrun.all)
    rwa [List.append_nil] at hreads
  | malformedNumber hd htail _ => exact .malformedNumber hd htail nofun
  | string hbody => exact .string hbody
  | unterminatedString hbody => exact .unterminatedString hbody
  | char hc => exact .char hc
  | quoteAtEnd => exact .quoteAtEnd
  | noChar => exact .noChar
  | unterminatedChar hc _ => exact .unterminatedChar hc nofun
  | @symbol spelling sign after hsign hlongest =>
    have hreads : Reads (spelling.toList ++ []) (.ok (.symbol sign)) spelling.toList :=
      .symbol hsign fun other hother hfront => hlongest other hother (hfront.trans (by simp))
    rwa [List.append_nil] at hreads
  | @unrecognized c after hword hdigit hquote happ hsymbol =>
    refine .unrecognized hword hdigit hquote happ fun sign hsign hfront => hsymbol sign hsign ?_
    exact hfront.trans (by simp)

/-! ## Fixed spellings -/

/-- A word that is reserved for a keyword is its spelling. -/
private theorem Reserved.eq_spelling {text : String} {word : Keyword}
    (h : Reserved text (.keyword word)) :
    text = word.spelling := by
  have hwords : ∀ entry ∈ reservedWords, ∀ word, entry.2 = .keyword word →
      entry.1 = word.spelling := by
    simp [reservedWords, Keyword.spelling]
  exact hwords _ h word rfl

/-- A word that is reserved for a sign is its spelling. -/
private theorem Reserved.eq_underscore {text : String} {sign : Symbol}
    (h : Reserved text (.symbol sign)) :
    text = sign.spelling := by
  have hwords : ∀ entry ∈ reservedWords, ∀ sign, entry.2 = .symbol sign →
      entry.1 = sign.spelling := by
    simp [reservedWords, Symbol.spelling]
  exact hwords _ h sign rfl

/-- A reserved word is written in one way only. -/
theorem Reads.keyword_lexeme {text lexeme : List Char} {word : Keyword}
    (h : Reads text (.ok (.keyword word)) lexeme) : lexeme = word.spelling.toList := by
  cases h with
  | reserved _ _ hword => rw [← hword.eq_spelling, String.toList_ofList]

/-- And so is a symbol. -/
theorem Reads.symbol_lexeme {text lexeme : List Char} {sign : Symbol}
    (h : Reads text (.ok (.symbol sign)) lexeme) : lexeme = sign.spelling.toList := by
  cases h with
  | reserved _ _ hword => rw [← hword.eq_underscore, String.toList_ofList]
  | symbol hsign _ => rw [(mem_signs_iff.mp hsign).1]

end Pattern

end Script
