import Script.Proofs.GrammarCongruence

/-!
# The limit of nesting only rejects

How deep a rule of the grammar stands decides how many levels it may still open, and nothing else.
If there is enough room for a reading, or for a fault other than that of nesting too deeply, then
more room gives the same tree or the same fault and leaves the same tokens. This is the case of a
rule beside itself with more room, on the same tokens.

## Key results

- `Parser.Mirrors.eq_of_not_stopped`: readers of the same tokens read the same
- `Grammar.nesting_limit_only_rejects`: less depth, for every rule
-/

namespace Script

namespace Parser

variable {α : Type}

/-- Reading has stopped because statements and expressions are nested too deeply. -/
def StoppedTooDeep : EStateM.Result ParseError (List Token) α → Prop
  | .ok _ _ => False
  | .error e _ => e.fault = .nestingTooDeep

/-- The same fault about the same token is the same error. -/
private theorem SameFault.eq {roomier : Prop} {rest : List Token} {e e' : ParseError}
    (h : SameFault (.itself roomier) rest e e') : e' = e := by
  cases h with
  | ended | tooDeepAtEnd => rfl
  | unexpected _ ht | duplicateDefault ht | nestedFunction _ ht | duplicateParameter _ _ ht
  | tooDeep ht =>
    cases ht
    rfl

/-- Unless the first reader stops for nesting too deeply, the second one reads the same from the
    same tokens, or fails in the same way, and leaves the same tokens. -/
theorem Mirrors.eq_of_not_stopped {roomier : Prop} {least enough : Nat} {p q : Parser α}
    (h : Mirrors (.itself roomier) Eq least enough p q) {tokens : List Token}
    (hread : ¬ StoppedTooDeep (p tokens)) : q tokens = p tokens := by
  have hends := h tokens tokens (List.forall₂_same.mpr fun _ _ => rfl)
  generalize p tokens = result, q tokens = result' at hends hread ⊢
  cases hends with
  | ok hab _ _ hsame =>
    have hrest := List.forall₂_eq_eq_eq ▸ hsame
    rw [hab, hrest]
  | error hfault _ hsame _ =>
    have hrest := List.forall₂_eq_eq_eq ▸ hsame
    rw [hfault.eq, hrest]
  | stopped _ htoo _ _ => exact absurd htoo hread

end Parser

namespace Grammar

open Script.Parser

/-- Unless a rule stops for nesting too deeply, it reads the same tree at every smaller depth, or
    fails in the same way, and it leaves the same tokens. -/
theorem nesting_limit_only_rejects {α : Type} (rule : Rule α) (inFunction : Bool)
    (depth depth' : Nat) (hdepth : depth' ≤ depth) (tokens : List Token)
    (hread : ¬ StoppedTooDeep (rule.reader (maxNesting - depth) inFunction tokens)) :
    rule.reader (maxNesting - depth') inFunction tokens =
      rule.reader (maxNesting - depth) inFunction tokens := by
  have hroom : (Comparison.itself True).Room (maxNesting - depth) (maxNesting - depth') :=
    .inr ⟨trivial, Nat.sub_le_sub_left hdepth maxNesting⟩
  exact (rule.mirrors hroom inFunction).eq_of_not_stopped hread

/-- A statement that stops at a parenthesis without a partner. It has room for its expression inside
    62 levels, and no deeper. -/
theorem nesting_limit_only_rejects_lone_parenthesis :
    let tokens : List Token :=
      [⟨.literal (.integer 1), "1", 1, 1⟩, ⟨.symbol .rightParen, ")", 1, 2⟩]
    StoppedTooDeep (Rule.statement.reader (maxNesting - 63) true tokens) ∧
      ¬ StoppedTooDeep (Rule.statement.reader (maxNesting - 62) true tokens) ∧
      Rule.statement.reader (maxNesting - 0) true tokens =
        Rule.statement.reader (maxNesting - 62) true tokens := by
  intro tokens
  have hread : ¬ StoppedTooDeep (Rule.statement.reader (maxNesting - 62) true tokens) := nofun
  exact ⟨rfl, hread, nesting_limit_only_rejects .statement true 62 0 (by decide) tokens hread⟩

end Grammar

end Script
