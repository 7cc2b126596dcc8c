import Script.Proofs.GrammarCongruence

/-!
# What parse errors are about

A rule of the grammar that fails says where: at the token that it cannot take, at the token that
starts what is wrong, or at the end of the tokens. `ParseError.About` lists what an error can be
about. That the errors of the grammar are about tokens of the source is the case of a reading beside
itself, where the tokens are known to be those of the source.

Two kinds of errors have no token to stand at: the tokens end too early, or they end where one more
level of nesting would be opened that there is no room for.

## Key results

- `Grammar.about_of_program_error`: tokens that are no program are at fault at one of them, or at
  their end
-/

namespace Script

/-- What an error is about, where `all` are the tokens of the source and `rest` those that were left
    when reading stopped. -/
inductive ParseError.About (all rest : List Token) : ParseError → Prop where
  | unexpected {token : Token} (expected : Expectation) :
      token ∈ all → About all rest ⟨.unexpectedToken expected token.describe, token.position⟩
  | ended (expected : Expectation) : About all rest ⟨.unexpectedEnd expected, .nowhere⟩
  | duplicateDefault {token : Token} :
      token ∈ all → token.kind = .symbol .underscore →
      About all rest ⟨.duplicateDefaultCase, token.position⟩
  | nestedFunction {token : Token} (name : String) :
      token ∈ all → token.kind = .keyword .kwFun →
      About all rest ⟨.nestedFunction name, token.position⟩
  | duplicateParameter {token : Token} (function name : String) :
      token ∈ all → token.kind = .keyword .kwFun →
      About all rest ⟨.duplicateParameter function name, token.position⟩
  /-- The next token would open one level too many. -/
  | tooDeep {token : Token} :
      token ∈ all → rest.head? = some token → About all rest ⟨.nestingTooDeep, token.position⟩
  /-- There is no next token, and no level for one. -/
  | tooDeepAtEnd : rest = [] → About all rest ⟨.nestingTooDeep, .nowhere⟩

namespace Grammar

open Script.Parser

variable {all rest tokens : List Token} {e e' : ParseError}

/-- Tokens of a source beside themselves. -/
private def among (all : List Token) : Comparison where
  token t t' := t ∈ all ∧ t' = t
  lineOf := id
  roomier := False
  kind h := by rw [h.2]
  line h := by rw [h.2, id]

/-- The faults of two readings are about tokens of both of them. -/
private theorem about_of_sameFault (h : SameFault (among all) rest e e') : e.About all rest := by
  cases h with
  | unexpected expected ht => exact .unexpected expected ht.1
  | ended expected => exact .ended expected
  | duplicateDefault ht hkind => exact .duplicateDefault ht.1 hkind
  | nestedFunction name ht hkind => exact .nestedFunction name ht.1 hkind
  | duplicateParameter function name ht hkind => exact .duplicateParameter function name ht.1 hkind
  | tooDeep ht hhead => exact .tooDeep ht.1 hhead
  | tooDeepAtEnd hend => exact .tooDeepAtEnd hend

/-- Tokens that are no program are at fault at one of them, or at their end. -/
theorem about_of_program_error (h : program tokens = .error e rest) : e.About tokens rest := by
  have htokens : List.Forall₂ (among tokens).token tokens tokens :=
    List.forall₂_same.mpr fun _ ht => ⟨ht, rfl⟩
  have hends := mirrors_program tokens tokens htokens
  rw [h] at hends
  cases hends with
  | error hfault _ _ _ => exact about_of_sameFault hfault
  | stopped hroomier => exact hroomier.elim

end Grammar

end Script
