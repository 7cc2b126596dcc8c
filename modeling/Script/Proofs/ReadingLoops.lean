import Script.Proofs.ReadingProgress

/-!
# Reading ends

A rule that repeats something is written here as a loop with no bound on its rounds: a round fails,
ends the loop or goes on with what has been read so far. `Parser.Loops` holds of the result of a
loop that ends, so that it holds of nothing for a loop that runs forever. Every round that is
followed by another one consumes a token, and so all loops of the grammar end, on whatever tokens,
with what the rules read, which count their rounds by the tokens that were left at the start.

The rules also call each other, and every level that is opened in this way costs a token. So the
limit of nesting is not what makes reading end: where there is room for more levels than there are
tokens, no rule is stopped by it, and still more room changes nothing.

## Key results

- `Parser.loops_counted`: a loop whose rounds consume tokens ends, with the result of counting them
- `Grammar.loops_program`, `Grammar.loops_statementsToBrace`, `Grammar.loops_cases`,
  `Grammar.loops_operations`, `Grammar.loops_listUntil`: the loops of the grammar
- `Grammar.reading_ends`: all rules consume tokens, and all loops end
-/

namespace Script

namespace Parser

variable {σ α : Type}

/-! ## Loops -/

/-- What a round of a loop has come to: there is another one, or the loop is over. -/
inductive Round (σ α : Type) where
  | again (state : σ)
  | stop (result : α)

/-- A loop ends with a result, after finitely many rounds. -/
inductive Loops (round : σ → Parser (Round σ α)) :
    σ → List Token → EStateM.Result ParseError (List Token) α → Prop where
  | stop {state : σ} {tokens rest : List Token} {a : α} :
      round state tokens = .ok (.stop a) rest → Loops round state tokens (.ok a rest)
  | fail {state : σ} {tokens rest : List Token} {e : ParseError} :
      round state tokens = .error e rest → Loops round state tokens (.error e rest)
  | again {state state' : σ} {tokens mid : List Token}
      {result : EStateM.Result ParseError (List Token) α} :
      round state tokens = .ok (.again state') mid → Loops round state' mid result →
        Loops round state tokens result

/-- A loop ends with one result only. -/
theorem Loops.unique {round : σ → Parser (Round σ α)} {state : σ} {tokens : List Token}
    {result result' : EStateM.Result ParseError (List Token) α}
    (h : Loops round state tokens result) (h' : Loops round state tokens result') :
    result = result' := by
  -- A round has one outcome only, so that both loops take the same rounds.
  induction h with
  | stop hround =>
    cases h' with
    | stop hround' =>
      cases hround.symm.trans hround'
      rfl
    | fail hround' | again hround' _ => cases hround.symm.trans hround'
  | fail hround =>
    cases h' with
    | fail hround' =>
      cases hround.symm.trans hround'
      rfl
    | stop hround' | again hround' _ => cases hround.symm.trans hround'
  | again hround _ ih =>
    cases h' with
    | stop hround' | fail hround' => cases hround.symm.trans hround'
    | again hround' h' =>
      cases hround.symm.trans hround'
      exact ih h'

/-- A loop ends with a result, and with no other one. -/
def EndsWith (round : σ → Parser (Round σ α)) (state : σ) (tokens : List Token)
    (result : EStateM.Result ParseError (List Token) α) : Prop :=
  ∀ result', Loops round state tokens result' ↔ result' = result

/-- A loop with a result has no other one. -/
private theorem Loops.endsWith {round : σ → Parser (Round σ α)} {state : σ} {tokens : List Token}
    {result : EStateM.Result ParseError (List Token) α} (h : Loops round state tokens result) :
    EndsWith round state tokens result := by
  intro result'
  constructor
  · exact fun h' => h'.unique h
  · rintro rfl
    exact h

/-- Every round that is followed by another one consumes a token. -/
def Advancing (round : σ → Parser (Round σ α)) : Prop :=
  ∀ state tokens state' rest, round state tokens = .ok (.again state') rest →
    rest.length < tokens.length

/-- A reader takes rounds as long as it has some left, and it has as many as there are tokens. Then
    it never runs out of them, if the rounds consume tokens, so that the loop ends as it does. The
    induction is on the rounds that are left. -/
theorem loops_counted {round : σ → Parser (Round σ α)} (counted : List Token → σ → Parser α)
    (hround : ∀ token bound state, counted (token :: bound) state = do
      match ← round state with
      | .again state' => counted bound state'
      | .stop a => return a)
    (hend : ∀ state, Loops round state [] (counted [] state [])) (hadvancing : Advancing round)
    (bound : List Token) (state : σ) (tokens : List Token) (hbound : tokens.length ≤ bound.length) :
    Loops round state tokens (counted bound state tokens) := by
  induction bound generalizing state tokens with
  | nil =>
    -- No rounds are left, and no tokens for one.
    obtain rfl := List.length_eq_zero_iff.mp (Nat.le_zero.mp hbound)
    exact hend state
  | cons token bound ih =>
    rw [hround]
    cases hread : round state tokens with
    | error e rest =>
      rw [bind_of_error hread]
      exact .fail hread
    | ok outcome rest =>
      rw [bind_of_ok hread]
      cases outcome with
      | stop a => exact .stop hread
      | again state' =>
        have hless := hadvancing state tokens state' rest hread
        rw [List.length_cons] at hbound
        exact .again hread (ih state' rest (by omega))

end Parser

namespace Grammar

open Script.Parser

/-! ## Statements up to the end -/

/-- A statement, if there are tokens left. -/
def programRound (sofar : Program) : Parser (Round Program Program) := do
  match ← peek with
  | none => return .stop sofar
  | some _ =>
    let more ← statement maxNesting false
    return .again (sofar ++ [more])

/-- A round of the program reads a statement. -/
private theorem advancing_programRound : Advancing programRound := by
  intro sofar tokens state rest hread
  rw [programRound, bind_peek] at hread
  cases tokens with
  | nil => cases hread
  | cons token more =>
    simp only [List.head?_cons, bind_ok, pure_ok] at hread
    obtain ⟨first, _, hfirst, -, rfl⟩ := hread
    exact Rule.statement.consuming maxNesting false _ _ _ hfirst

/-- Reading a program is a loop without a bound. -/
theorem loops_program (tokens : List Token) : Loops programRound [] tokens (program tokens) := by
  have h := loops_counted (fun bound sofar => (sofar ++ ·) <$> statementsToEnd bound)
    (fun token bound sofar => ?_) (fun sofar => ?_) advancing_programRound tokens [] tokens
    (Nat.le_refl _)
  · show Loops programRound [] tokens (statementsToEnd tokens tokens)
    simpa using h
  · -- A round of the reader is a round of the loop, but puts its statement in front of the others.
    simp only [statementsToEnd, programRound, bind_assoc, map_bind]
    congr 1
    funext found
    cases found with
    | none => simp
    | some _ => simp
  · rw [statementsToEnd, map_pure, List.append_nil]
    exact .stop rfl

/-! ## Statements up to a brace -/

/-- The closing brace, or a statement in front of it. -/
def statementsRound (statement : Parser Statement) (sofar : List Statement) :
    Parser (Round (List Statement) (List Statement)) := do
  match ← peek with
  | none => reject (.symbol .rightBrace) none
  | some token =>
    if token.kind = .symbol .rightBrace then
      let _ ← next
      return .stop sofar
    else
      let more ← statement
      return .again (sofar ++ [more])

section Inner

variable {inner : Parser Statement} (hs : Consuming inner)

include hs

/-- A round of a block reads a statement. -/
private theorem advancing_statementsRound : Advancing (statementsRound inner) := by
  intro sofar tokens state rest hread
  rw [statementsRound, bind_peek] at hread
  cases tokens with
  | nil => cases hread
  | cons token more =>
    simp only [List.head?_cons] at hread
    split at hread
    · cases hread
    · simp only [bind_ok, pure_ok] at hread
      obtain ⟨first, _, hfirst, -, rfl⟩ := hread
      exact hs _ _ _ hfirst

/-- Reading the statements of a block is a loop without a bound. -/
theorem loops_statementsToBrace (tokens : List Token) :
    Loops (statementsRound inner) [] tokens (statementsToBrace inner tokens tokens) := by
  have h := loops_counted (fun bound sofar => (sofar ++ ·) <$> statementsToBrace inner bound)
    (fun token bound sofar => ?_) (fun sofar => ?_) (advancing_statementsRound hs) tokens [] tokens
    (Nat.le_refl _)
  · simpa using h
  · -- A round of the reader is a round of the loop, and what was read before is put in front.
    simp only [statementsToBrace, statementsRound, bind_assoc, map_bind]
    congr 1
    funext found
    cases found with
    | none => rfl
    | some token =>
      dsimp only
      split
      · simp
      · simp
  · -- Without any rounds left, both find the end of the tokens.
    exact .fail rfl

end Inner

/-! ## Cases -/

/-- The closing brace, or a case in front of it. -/
def casesRound (statement : Parser Statement)
    (sofar : List (Kind × Statement) × Option Statement) :
    Parser (Round (List (Kind × Statement) × Option Statement)
      (List (Kind × Statement) × Option Statement)) := do
  let found ← next
  match found with
  | some ⟨.symbol .rightBrace, _, _, _⟩ => return .stop sofar
  | some ⟨.symbol .underscore, _, line, column⟩ =>
    if sofar.2.isSome then
      fail .duplicateDefaultCase { line, column }
    else
      let body ← caseBody statement
      return .again (sofar.1, some body)
  | some ⟨.literal (.type kind), _, _, _⟩ =>
    let body ← caseBody statement
    return .again (sofar.1 ++ [(kind, body)], sofar.2)
  | _ => reject .matchCase found

section Inner

variable {inner : Parser Statement} (hs : Consuming inner)

include hs

/-- A round of a `match` reads a case. -/
private theorem advancing_casesRound : Advancing (casesRound inner) := by
  intro sofar tokens state rest hread
  cases tokens with
  | nil => cases hread
  | cons token more =>
    -- The token in front is consumed, and so are those of the body.
    have hbody (body : Statement) (hread : caseBody inner more = .ok body rest) :
        rest.length < (token :: more).length := by
      obtain ⟨colon, behind, hcolon, hinner⟩ := bind_ok.mp hread
      obtain ⟨rfl, -⟩ := symbol_ok.mp hcolon
      have hlength := hs _ _ _ hinner
      simp only [List.length_cons]
      omega
    rw [casesRound, bind_next, List.tail_cons] at hread
    generalize (token :: more).head? = found at hread
    split at hread
    · cases hread
    · split at hread
      · cases hread
      · simp only [bind_ok, pure_ok] at hread
        obtain ⟨body, _, hread, -, rfl⟩ := hread
        exact hbody body hread
    · simp only [bind_ok, pure_ok] at hread
      obtain ⟨body, _, hread, -, rfl⟩ := hread
      exact hbody body hread
    · exact absurd hread reject_ok

/-- Reading the cases of a `match` is a loop without a bound. -/
theorem loops_cases (tokens : List Token) :
    Loops (casesRound inner) ([], none) tokens (cases inner tokens none tokens) := by
  have h := loops_counted
    (fun bound sofar => (fun read => (sofar.1 ++ read.1, read.2)) <$> cases inner bound sofar.2)
    (fun token bound sofar => ?_) (fun sofar => ?_) (advancing_casesRound hs) tokens ([], none)
    tokens (Nat.le_refl _)
  · simpa using h
  · -- The four rounds: the closing brace, a default case, a typed case, and anything else.
    simp only [cases, casesRound, bind_assoc, map_bind]
    congr 1
    funext found
    split
    · simp
    · split
      · rfl
      · simp
    · simp
    · simp [map_reject, bind_reject]
  · exact .fail rfl

end Inner

/-! ## Operators -/

/-- An operator with its right operand, if there is one. -/
def operationsRound (tightness : Nat) (operand : Parser Expr) (left : Expr) :
    Parser (Round Expr Expr) := do
  match ← nextOperator tightness with
  | none => return .stop left
  | some (op, line) =>
    let right ← operand
    return .again (.binary left op right line)

/-- A round of a level reads an operator and an operand. -/
private theorem advancing_operationsRound {operand : Parser Expr} (ho : Consuming operand)
    (tightness : Nat) : Advancing (operationsRound tightness operand) := by
  intro left tokens state rest hread
  rw [operationsRound] at hread
  rcases noOperator_or tightness tokens with hnone | ⟨token, more, op, rfl, hop, htight⟩
  · rw [bind_of_ok (nextOperator_of_noOperator hnone)] at hread
    cases hread
  · simp only [bind_of_ok (nextOperator_of_some hop htight), bind_ok, pure_ok] at hread
    obtain ⟨right, _, hright, -, rfl⟩ := hread
    exact Nat.lt_succ_of_lt (ho _ _ _ hright)

/-- Reading the operations of a level is a loop without a bound. -/
theorem loops_operations {operand : Parser Expr} (ho : Consuming operand)
    (tightness : Nat) (left : Expr) (tokens : List Token) :
    Loops (operationsRound tightness operand) left tokens
      (operations tightness operand tokens left tokens) := by
  refine loops_counted (operations tightness operand) (fun token bound left => ?_) (fun left => ?_)
    (advancing_operationsRound ho tightness) tokens left tokens (Nat.le_refl _)
  · simp only [operations, operationsRound, bind_assoc]
    congr 1
    funext found
    cases found with
    | none => simp
    | some entry => simp
  · exact .stop rfl

/-! ## Lists -/

/-- The comma or the closing sign behind an item. -/
def separatorRound {α : Type} (closing : Symbol) (sofar : List α) :
    Parser (Round (List α) (List α)) := do
  let found ← next
  match found.map Token.kind with
  | some (.symbol sign) =>
    if sign = .comma then
      return .again sofar
    else if sign = closing then
      return .stop sofar
    else
      reject (.commaOr closing) found
  | _ => reject (.commaOr closing) found

/-- An item, and what stands behind it. -/
def itemsRound {α : Type} (item : Parser α) (closing : Symbol) (sofar : List α) :
    Parser (Round (List α) (List α)) := do
  let more ← item
  separatorRound closing (sofar ++ [more])

section Items

variable {α : Type}

/-- A separator is a single token. -/
private theorem separatorRound_ok {closing : Symbol} {sofar : List α} {tokens rest : List Token}
    {outcome : Round (List α) (List α)}
    (h : separatorRound closing sofar tokens = .ok outcome rest) : rest = tokens.tail := by
  rw [separatorRound, bind_next] at h
  generalize tokens.head? = found at h
  generalize found.map Token.kind = kind at h
  split at h
  · split at h
    · exact (pure_ok.mp h).2.symm
    · split at h
      · exact (pure_ok.mp h).2.symm
      · exact absurd h reject_ok
  · exact absurd h reject_ok

/-- Behind a comma there is another item. -/
private theorem map_listRest_cons (item : Parser α) (closing : Symbol) (token : Token)
    (bound : List Token) (sofar : List α) :
    (sofar ++ ·) <$> listRest item closing (token :: bound) = (do
      match ← separatorRound closing sofar with
      | .again sofar =>
        let more ← item
        (sofar ++ [more] ++ ·) <$> listRest item closing bound
      | .stop items => return items) := by
  simp only [listRest, separatorRound, bind_assoc, map_bind]
  congr 1
  funext found
  generalize found.map Token.kind = kind
  split
  · rename_i sign
    by_cases hcomma : sign = .comma
    · simp [hcomma]
    · by_cases hclosing : sign = closing
      · subst hclosing
        simp [hcomma]
      · simp [hcomma, hclosing, map_reject, bind_reject]
  · simp [map_reject, bind_reject]

variable {item : Parser α} (hitem : Consuming item)

include hitem

/-- Here the rounds are counted by the tokens behind an item, where a round of the loop is half
    over. -/
private theorem loops_listRest (closing : Symbol) (bound : List Token) (sofar : List α) (more : α)
    (tokens mid : List Token) (hmore : item tokens = .ok more mid)
    (hbound : mid.length ≤ bound.length) :
    Loops (itemsRound item closing) sofar tokens
      (((sofar ++ [more] ++ ·) <$> listRest item closing bound) mid) := by
  have hround : itemsRound item closing sofar tokens =
      separatorRound closing (sofar ++ [more]) mid := bind_of_ok hmore
  induction bound generalizing sofar more tokens mid with
  | nil =>
    obtain rfl := List.length_eq_zero_iff.mp (Nat.le_zero.mp hbound)
    exact .fail hround
  | cons token bound ih =>
    rw [map_listRest_cons]
    cases hseparator : separatorRound closing (sofar ++ [more]) mid with
    | error e rest =>
      rw [bind_of_error hseparator]
      exact .fail (hround.trans hseparator)
    | ok outcome rest =>
      have hrest := congrArg List.length (separatorRound_ok hseparator)
      rw [List.length_tail] at hrest
      rw [bind_of_ok hseparator]
      cases outcome with
      | stop items => exact .stop (hround.trans hseparator)
      | again sofar =>
        -- The separator was a comma, and the next round starts with the item behind it.
        refine .again (hround.trans hseparator) ?_
        show Loops _ sofar rest
          ((item >>= fun more => (sofar ++ [more] ++ ·) <$> listRest item closing bound) rest)
        cases hitems : item rest with
        | error e rest' =>
          rw [bind_of_error hitems]
          exact .fail (bind_of_error hitems)
        | ok more' mid' =>
          have hlength := hitem _ _ _ hitems
          rw [List.length_cons] at hbound
          rw [bind_of_ok hitems]
          exact ih sofar more' rest mid' hitems (by omega) (bind_of_ok hitems)

/-- Reading a list is a loop without a bound, if there is an item in it. -/
theorem loops_listUntil (closing : Symbol) {tokens : List Token}
    (hnext : NotNext (.symbol closing) tokens) :
    Loops (itemsRound item closing) [] tokens (listUntil item closing tokens) := by
  -- The list does not close at once, so that its first item is read before the loop starts.
  have hnot : nextIf (.symbol closing) tokens = .ok none tokens := by
    rw [nextIf_eq]
    cases tokens with
    | nil => rfl
    | cons token more =>
      rw [NotNext_cons] at hnext
      simp [hnext]
  rw [listUntil, bind_of_ok hnot]
  dsimp only
  cases hitems : item tokens with
  | error e rest =>
    rw [bind_of_error hitems]
    exact .fail (bind_of_error hitems)
  | ok first mid =>
    rw [bind_of_ok hitems, bind_remaining, bind_pure_comp]
    exact loops_listRest hitem closing mid [] first tokens mid hitems (Nat.le_refl _)

end Items

/-! ## All rules and all loops -/

/-- The loops of the grammar end, with what the rules read that count the rounds. A list has a loop
    only if it is not closed at once. -/
structure LoopsEnd (room : Nat) (inFunction : Bool) (tokens : List Token) : Prop where
  program : EndsWith programRound [] tokens (Grammar.program tokens)
  statements : EndsWith (statementsRound (statement room inFunction)) [] tokens
    (statementsToBrace (statement room inFunction) tokens tokens)
  cases : EndsWith (casesRound (statement room inFunction)) ([], none) tokens
    (Grammar.cases (statement room inFunction) tokens none tokens)
  operations (n : Nat) (left : Expr) :
    EndsWith (operationsRound (8 - n) (level (expression room) n)) left tokens
      (Grammar.operations (8 - n) (level (expression room) n) tokens left tokens)
  list {α : Type} (item : Rule α) (closing : Symbol) : NotNext (.symbol closing) tokens →
    EndsWith (itemsRound (item.reader room inFunction) closing) [] tokens
      (listUntil (item.reader room inFunction) closing tokens)

/-- All loops of the grammar end, with what the bounded readers give. -/
private theorem loopsEnd (room : Nat) (inFunction : Bool) (tokens : List Token) :
    LoopsEnd room inFunction tokens where
  program := (loops_program tokens).endsWith
  statements :=
    (loops_statementsToBrace (Rule.statement.consuming room inFunction) tokens).endsWith
  cases := (loops_cases (Rule.statement.consuming room inFunction) tokens).endsWith
  operations n left :=
    (loops_operations ((Rule.level n).consuming room inFunction) _ left tokens).endsWith
  list item closing hnext :=
    (loops_listUntil (item.consuming room inFunction) closing hnext).endsWith

/-- With room for any number of levels, in a function or not, on whatever tokens, every rule leaves
    a suffix of the tokens, and consumes at least one where it succeeds. If there is room for more
    levels than there are tokens, no rule stops for nesting too deeply, and with still more room it
    reads the same: rules call each other no deeper than the tokens reach. A program with no tokens
    is the only success that consumes none. And every loop ends. -/
theorem reading_ends (room : Nat) (inFunction : Bool) (tokens : List Token) :
    (∀ {α : Type} (rule : Rule α),
      Consumes 1 tokens (rule.reader room inFunction tokens) ∧
        (tokens.length + 1 < room →
          ¬ StoppedTooDeep (rule.reader room inFunction tokens) ∧
            ∀ room', room ≤ room' → rule.reader room' inFunction tokens =
              rule.reader room inFunction tokens)) ∧
      Consumes 0 tokens (program tokens) ∧ (tokens ≠ [] → Consumes 1 tokens (program tokens)) ∧
      LoopsEnd room inFunction tokens := by
  refine ⟨fun rule => ⟨rule.consumes room inFunction tokens, fun hroom => ?_⟩,
    consumes_program tokens, consumes_program_of_ne_nil, loopsEnd room inFunction tokens⟩
  have hshallow := rule.not_stopped inFunction hroom
  refine ⟨hshallow, fun room' hle => ?_⟩
  have hroom' : (Comparison.itself True).Room room room' := .inr ⟨trivial, hle⟩
  exact (rule.mirrors hroom' inFunction).eq_of_not_stopped hshallow

/-- A match statement that stops in its first case. -/
theorem reading_ends_in_case :
    let tokens : List Token :=
      [⟨.keyword .kwMatch, "match", 1, 1⟩, ⟨.symbol .leftParen, "(", 1, 7⟩,
        ⟨.identifier "x", "x", 1, 8⟩, ⟨.symbol .rightParen, ")", 1, 9⟩,
        ⟨.symbol .leftBrace, "\x7b", 1, 11⟩, ⟨.literal (.type .integer), "int", 1, 13⟩,
        ⟨.symbol .colon, ":", 1, 16⟩, ⟨.symbol .rightParen, ")", 1, 18⟩]
    tokens.length + 1 < maxNesting ∧ maxNesting ≤ 100 ∧
      ¬ StoppedTooDeep (Rule.statement.reader maxNesting false tokens) ∧
      Rule.statement.reader 100 false tokens =
        Rule.statement.reader maxNesting false tokens ∧
      Consumes 1 tokens (program tokens) ∧ LoopsEnd maxNesting false tokens := by
  intro tokens
  have hroom : tokens.length + 1 < maxNesting := by decide
  have hmore : maxNesting ≤ 100 := by decide
  obtain ⟨hrules, -, hprogram, hloops⟩ := reading_ends maxNesting false tokens
  obtain ⟨-, hsettled⟩ := hrules .statement
  obtain ⟨hshallow, hsame⟩ := hsettled hroom
  exact ⟨hroom, hmore, hshallow, hsame 100 hmore, hprogram nofun, hloops⟩

end Grammar

end Script
