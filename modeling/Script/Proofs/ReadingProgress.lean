import Script.Proofs.NestingLimit

/-!
# Every rule consumes tokens

A rule of the grammar that succeeds has consumed at least one token, and what it leaves, also when
it fails, is a suffix of the tokens that it was given. The levels of an expression call each other
on the same tokens, but at their bottom stands a factor, and that takes a token before anything
nested is read.

So there are never more levels open than tokens have been consumed: with room for more levels than
there are tokens, no rule stops for nesting too deeply. Both are the case of a rule beside itself.

## Key results

- `Grammar.Rule.consumes`, `Grammar.Rule.not_stopped`: all rules
- `Grammar.consumes_program`: whole programs
-/

namespace Script

namespace Parser

variable {α : Type} {related : α → α → Prop} {least enough : Nat} {p : Parser α}

/-- What is left behind a reading is a suffix of the tokens, and a success has consumed at least
    some number of them. -/
def Consumes (least : Nat) (tokens : List Token) :
    EStateM.Result ParseError (List Token) α → Prop
  | .ok _ rest => rest <:+ tokens ∧ rest.length + least ≤ tokens.length
  | .error _ rest => rest <:+ tokens

/-- A reader that consumes a token where it succeeds. -/
def Consuming (p : Parser α) : Prop :=
  ∀ tokens a rest, p tokens = .ok a rest → rest.length < tokens.length

/-- What a reader consumes is known from the reader beside itself. -/
theorem Mirrors.consumes (h : Mirrors (.itself False) related least enough p p)
    (tokens : List Token) : Consumes least tokens (p tokens) := by
  have hends := h tokens tokens (List.forall₂_same.mpr fun _ _ => rfl)
  generalize p tokens = result at hends ⊢
  cases hends with
  | ok _ hrest hlength _ => exact ⟨hrest, hlength⟩
  | error _ hrest _ _ => exact hrest
  | stopped hroomier => exact hroomier.elim

/-- And so is on how few tokens it does not stop. -/
theorem Mirrors.not_stopped (h : Mirrors (.itself False) related least enough p p)
    {tokens : List Token} (hlength : tokens.length < enough) : ¬ StoppedTooDeep (p tokens) := by
  have hends := h tokens tokens (List.forall₂_same.mpr fun _ _ => rfl)
  generalize p tokens = result at hends ⊢
  cases hends with
  | ok => exact id
  | error _ _ _ hdeep => exact fun htoo => absurd (hdeep htoo) (Nat.not_le_of_lt hlength)
  | stopped hroomier => exact hroomier.elim

end Parser

namespace Grammar

open Script.Parser

variable {α : Type}

/-! ## All rules -/

/-- Every rule consumes at least one token where it succeeds. -/
theorem Rule.consumes (rule : Rule α) (room : Nat) (inFunction : Bool) (tokens : List Token) :
    Consumes 1 tokens (rule.reader room inFunction tokens) :=
  (rule.mirrors (.inl rfl) inFunction).consumes tokens

/-- A rule that succeeds has read a token. -/
theorem Rule.consuming (rule : Rule α) (room : Nat) (inFunction : Bool) :
    Consuming (rule.reader room inFunction) := by
  intro tokens a rest hread
  have hconsumes := rule.consumes room inFunction tokens
  rw [hread] at hconsumes
  exact hconsumes.2

/-- With room for more levels than there are tokens, no rule stops for nesting too deeply. -/
theorem Rule.not_stopped (rule : Rule α) {room : Nat} (inFunction : Bool) {tokens : List Token}
    (hroom : tokens.length + 1 < room) : ¬ StoppedTooDeep (rule.reader room inFunction tokens) :=
  (rule.mirrors (.inl rfl) inFunction).not_stopped (by omega)

/-! ## Programs -/

/-- What is read as a program consumes tokens from the front. -/
theorem consumes_program (tokens : List Token) : Consumes 0 tokens (program tokens) :=
  mirrors_program.consumes tokens

/-- A program may have no tokens, but if there is one then it is consumed. -/
theorem consumes_program_of_ne_nil {tokens : List Token} (h : tokens ≠ []) :
    Consumes 1 tokens (program tokens) := by
  obtain ⟨token, bound, rfl⟩ := List.exists_cons_of_ne_nil h
  let c : Comparison := .itself False
  have hbound : List.Forall₂ c.token bound bound := List.forall₂_same.mpr fun _ _ => rfl
  -- With a token in front, there is a first statement.
  have hstatements : Mirrors c (List.Forall₂ c.statement) 1 (maxNesting - 1)
      (statement maxNesting false >>= fun first =>
        statementsToEnd bound >>= fun more => pure (first :: more))
      (statement maxNesting false >>= fun first =>
        statementsToEnd bound >>= fun more => pure (first :: more)) := by
    refine .bind (mirrors_statement (.inl rfl) false) fun _ _ hfirst => ?_
    have hmore := (mirrors_statementsToEnd hbound).mono (Nat.le_refl 0)
      (Nat.sub_le (maxNesting - 1) 1)
    exact .bind hmore fun _ _ hmore => .pure (.cons hfirst hmore)
  exact hstatements.consumes (token :: bound)

end Grammar

end Script
