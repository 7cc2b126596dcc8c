import Script.Grammar.Basic

/-!
# Steps of a parser

What it takes for the smallest parsers to succeed. Each lemma says both what a success shows about
the tokens and which tokens make it a success, so that the same lemmas serve in both directions.

## Key results

- `bind_ok`: a rule that reads two parts reads one after the other
- `bind_nextIf_ok`: a rule that starts with a token that may be missing
- `symbol_ok`, `keyword_ok`, `identifier_ok`, `typeName_ok`: a token that has to be there
- `listRest_cons_ok`, `listUntil_ok`: lists with commas
-/

namespace Script

/-- The first token, if there is one, is not of the given kind. -/
def NotNext (kind : TokenKind) (tokens : List Token) : Prop :=
  ∀ token ∈ tokens.head?, token.kind ≠ kind

/-- At the end no token comes next. -/
@[simp] theorem NotNext_nil (kind : TokenKind) : NotNext kind [] := by
  simp [NotNext]

/-- The first token is the next one. -/
@[simp] theorem NotNext_cons (kind : TokenKind) (token : Token) (tokens : List Token) :
    NotNext kind (token :: tokens) ↔ token.kind ≠ kind := by
  simp [NotNext]

namespace Parser

variable {α β : Type} {tokens rest : List Token}

/-! ## Results -/

/-- Giving a value reads no token. -/
@[simp] theorem pure_ok {a b : β} :
    (pure a : Parser β) tokens = .ok b rest ↔ a = b ∧ tokens = rest := by
  show (EStateM.Result.ok a tokens : EStateM.Result ParseError (List Token) β) = .ok b rest ↔ _
  rw [EStateM.Result.ok.injEq]

/-- A fault is no success. -/
@[simp] theorem fail_ok {fault : ParseFault} {position : Position} {b : β} :
    ¬ (fail fault position : Parser β) tokens = .ok b rest := by
  intro h
  cases h

/-- Rejecting a token is no success. -/
@[simp] theorem reject_ok {expected : Expectation} {found : Option Token} {b : β} :
    ¬ (reject expected found : Parser β) tokens = .ok b rest := by
  cases found with
  | none => exact fail_ok
  | some _ => exact fail_ok

/-- Behind a part that is read, a rule goes on with the tokens that are left. -/
theorem bind_of_ok {first : Parser α} {second : α → Parser β} {a : α} {mid : List Token}
    (h : first tokens = .ok a mid) : (first >>= second) tokens = second a mid := by
  show EStateM.bind first second tokens = second a mid
  rw [EStateM.bind, h]

/-- A part that fails is the end of the rule. -/
theorem bind_of_error {first : Parser α} {second : α → Parser β} {e : ParseError}
    (h : first tokens = .error e rest) : (first >>= second) tokens = .error e rest := by
  show EStateM.bind first second tokens = .error e rest
  rw [EStateM.bind, h]

/-- Nothing is read behind a token that is rejected. -/
theorem bind_reject (expected : Expectation) (found : Option Token) (f : α → Parser β) :
    reject expected found >>= f = reject expected found := by
  cases found <;> rfl

/-- Rejecting a token gives nothing that could be changed. -/
theorem map_reject (expected : Expectation) (found : Option Token) (f : α → β) :
    f <$> (reject expected found : Parser α) = reject expected found := by
  cases found <;> rfl

/-- A rule that reads two parts reads one after the other. -/
theorem bind_ok {first : Parser α} {second : α → Parser β} {b : β} :
    (first >>= second) tokens = .ok b rest ↔
      ∃ a mid, first tokens = .ok a mid ∧ second a mid = .ok b rest := by
  show EStateM.bind first second tokens = .ok b rest ↔ _
  unfold EStateM.bind
  cases first tokens <;> simp [and_assoc]

/-! ## Looking at the next token -/

/-- Looking at the next token leaves it there. -/
@[simp] theorem bind_peek (f : Option Token → Parser β) (tokens : List Token) :
    (peek >>= f) tokens = f tokens.head? tokens := rfl

/-- Taking the next token leaves the others. -/
@[simp] theorem bind_next (f : Option Token → Parser β) (tokens : List Token) :
    (next >>= f) tokens = f tokens.head? tokens.tail := rfl

/-- Looking at the tokens that are left leaves them there. -/
@[simp] theorem bind_remaining (f : List Token → Parser β) (tokens : List Token) :
    (remaining >>= f) tokens = f tokens tokens := rfl

/-- What `nextIf` reads is the next token, if that is of the kind. -/
theorem nextIf_eq (kind : TokenKind) (tokens : List Token) :
    nextIf kind tokens =
      if tokens.head?.any (·.kind = kind) then .ok tokens.head? tokens.tail
      else .ok none tokens := by
  cases tokens with
  | nil => rfl
  | cons token more =>
    by_cases h : token.kind = kind
    · simp [nextIf, h, next]
    · simp [nextIf, h]

/-- A rule that starts with a token that may be missing. -/
theorem bind_nextIf_ok {kind : TokenKind} {f : Option Token → Parser β} {b : β} :
    (nextIf kind >>= f) tokens = .ok b rest ↔
      (∃ token more, tokens = token :: more ∧ token.kind = kind ∧
        f (some token) more = .ok b rest) ∨
      NotNext kind tokens ∧ f none tokens = .ok b rest := by
  rw [bind_ok, nextIf_eq]
  cases tokens with
  | nil => simp [and_assoc]
  | cons token more =>
    by_cases h : token.kind = kind
    · simp [h, and_assoc]
    · simp +contextual [h, and_assoc]

/-- A rule that starts by looking for a kind of token. -/
theorem bind_nextIs_ok {kind : TokenKind} {f : Bool → Parser β} {b : β} :
    (nextIs kind >>= f) tokens = .ok b rest ↔
      (∃ token more, tokens = token :: more ∧ token.kind = kind ∧ f true tokens = .ok b rest) ∨
      NotNext kind tokens ∧ f false tokens = .ok b rest := by
  show f (tokens.head?.any (·.kind = kind)) tokens = .ok b rest ↔ _
  cases tokens with
  | nil => simp
  | cons token more =>
    by_cases h : token.kind = kind
    · simp [h, and_assoc]
    · simp +contextual [h, and_assoc]

/-! ## Tokens that have to be there -/

/-- A required token is taken if it comes next. -/
private theorem required_ok {kind : TokenKind} {expected : Expectation} {token : Token} :
    required kind expected tokens = .ok token rest ↔
      tokens = token :: rest ∧ token.kind = kind := by
  rw [required, bind_nextIf_ok]
  -- Without the token there is a fault, so only the first case is left.
  simp only [pure_ok, bind_peek, reject_ok, and_false, or_false]
  constructor
  · intro h
    obtain ⟨token', more, htokens, hkind, rfl, rfl⟩ := h
    exact ⟨htokens, hkind⟩
  · intro h
    obtain ⟨htokens, hkind⟩ := h
    exact ⟨token, rest, htokens, hkind, rfl, rfl⟩

/-- A sign is taken if it comes next. -/
theorem symbol_ok {sign : Symbol} {token : Token} :
    symbol sign tokens = .ok token rest ↔ tokens = token :: rest ∧ token.kind = .symbol sign :=
  required_ok

/-- A keyword is taken if it comes next. -/
theorem keyword_ok {word : Keyword} {token : Token} :
    keyword word tokens = .ok token rest ↔ tokens = token :: rest ∧ token.kind = .keyword word :=
  required_ok

/-- A name is taken if it comes next. -/
theorem identifier_ok {name : String} :
    identifier tokens = .ok name rest ↔
      ∃ token, tokens = token :: rest ∧ token.kind = .identifier name := by
  cases tokens with
  | nil => simp [identifier]
  | cons token more =>
    obtain ⟨kind, lexeme, line, column⟩ := token
    cases kind <;> simp [identifier, and_comm, -bind_pure_comp]

/-- The name of a type is taken if it comes next. -/
theorem typeName_ok {kind : Kind} :
    typeName tokens = .ok kind rest ↔
      ∃ token, tokens = token :: rest ∧ token.kind = .literal (.type kind) := by
  cases tokens with
  | nil => simp [typeName]
  | cons token more =>
    obtain ⟨found, lexeme, line, column⟩ := token
    cases found with
    | literal value => cases value <;> simp [typeName, and_assoc, and_comm, -bind_pure_comp]
    | _ => simp [typeName]

/-! ## Lists with commas -/

/-- The rest of a list is a comma with an item and the rest behind it, or the closing sign. -/
theorem listRest_cons_ok {item : Parser α} {closing : Symbol} (hclosing : closing ≠ .comma)
    {head : Token} {bound : List Token} {items : List α} :
    listRest item closing (head :: bound) tokens = .ok items rest ↔
      (∃ comma more first mid others, tokens = comma :: more ∧ comma.kind = .symbol .comma ∧
        item more = .ok first mid ∧ listRest item closing bound mid = .ok others rest ∧
        items = first :: others) ∨
      ∃ close, tokens = close :: rest ∧ close.kind = .symbol closing ∧ items = [] := by
  cases tokens with
  | nil => simp [listRest]
  | cons token more =>
    obtain ⟨kind, lexeme, line, column⟩ := token
    cases kind with
    | symbol sign =>
      by_cases hcomma : sign = .comma
      · -- A comma is looked for first, and it does not close the list.
        subst hcomma
        simp only [listRest, bind_next, List.head?_cons, Option.map_some, List.tail_cons,
          ↓reduceIte, bind_ok, pure_ok]
        constructor
        · intro h
          obtain ⟨first, mid, hfirst, others, _, hothers, rfl, rfl⟩ := h
          exact .inl ⟨_, more, first, mid, others, rfl, rfl, hfirst, hothers, rfl⟩
        · intro h
          rcases h with ⟨comma, more', first, mid, others, heq, _, hfirst, hothers, rfl⟩ |
            ⟨close, heq, hkind, _⟩
          · cases heq
            exact ⟨first, mid, hfirst, others, rest, hothers, rfl, rfl⟩
          · cases heq
            exact absurd (TokenKind.symbol.inj hkind).symm hclosing
      · by_cases hclose : sign = closing
        · simp [listRest, hclosing, hclose, and_comm]
        · simp [listRest, hcomma, hclose]
    | _ => simp [listRest]

/-- A list is the closing sign, or an item and the rest behind it. -/
theorem listUntil_ok {item : Parser α} {closing : Symbol} {items : List α} :
    listUntil item closing tokens = .ok items rest ↔
      (∃ close, tokens = close :: rest ∧ close.kind = .symbol closing ∧ items = []) ∨
      NotNext (.symbol closing) tokens ∧ ∃ first mid others, item tokens = .ok first mid ∧
        listRest item closing mid mid = .ok others rest ∧ items = first :: others := by
  rw [listUntil, bind_nextIf_ok]
  simp only [pure_ok, bind_ok, bind_remaining]
  constructor
  · intro h
    rcases h with ⟨close, more, rfl, hkind, rfl, rfl⟩ |
      ⟨hnot, first, mid, hfirst, others, _, hothers, rfl, rfl⟩
    · exact .inl ⟨close, rfl, hkind, rfl⟩
    · exact .inr ⟨hnot, first, mid, others, hfirst, hothers, rfl⟩
  · intro h
    rcases h with ⟨close, rfl, hkind, rfl⟩ | ⟨hnot, first, mid, others, hfirst, hothers, rfl⟩
    · exact .inl ⟨close, rest, rfl, hkind, rfl, rfl⟩
    · exact .inr ⟨hnot, first, mid, hfirst, others, rest, hothers, rfl, rfl⟩

end Parser

end Script
