import Script.Proofs.GrammarCongruence

/-!
# Where tokens stand does not matter to the grammar

If tokens are relabeled, each keeping its kind, then the same tree is read with its lines changed in
the same way, or there is the same fault up to the text and the place of the token that was found.

## Key results

- `Grammar.follows_program`: whole programs
-/

namespace Script

/-! ## Tokens with other places -/

/-- A change of tokens that keeps what they are and moves their lines by `f`. What becomes of their
    texts and columns is left open. -/
structure Token.Relabels (f : Nat → Nat) (g : Token → Token) : Prop where
  kind (t : Token) : (g t).kind = t.kind
  line (t : Token) : (g t).line = f t.line

/-- The fault without the text of the token that was found. -/
def ParseFault.withoutFound : ParseFault → ParseFault
  | unexpectedToken expected _ => unexpectedToken expected ""
  | fault => fault

namespace Parser

/-- From relabeled tokens, the second parser reads what the first one reads from the tokens, with a
    change made to it, and it leaves the same tokens; where the first one fails, it fails for the
    same reason. -/
def Follows {α β : Type} (g : Token → Token) (change : α → β) (p : Parser α) (q : Parser β) :
    Prop :=
  ∀ tokens, match p tokens with
    | .ok a rest => q (tokens.map g) = .ok (change a) (rest.map g)
    | .error e rest => ∃ e', q (tokens.map g) = .error e' (rest.map g) ∧
        e'.fault.withoutFound = e.fault.withoutFound

/-- Relabeled tokens stand for the tokens that they were. -/
private def relabeled {f : Nat → Nat} {g : Token → Token} (h : Token.Relabels f g) :
    Comparison where
  token t t' := t' = g t
  lineOf := f
  roomier := False
  kind ht := by rw [ht, h.kind]
  line ht := by rw [ht, h.line]

/-- The fault shows the text of the token that was found, and nothing else of it. -/
private theorem SameFault.withoutFound_eq {c : Comparison} {rest : List Token} {e e' : ParseError}
    (h : SameFault c rest e e') : e'.fault.withoutFound = e.fault.withoutFound := by
  cases h <;> rfl

end Parser

namespace Grammar

open Script.Parser

/-- From relabeled tokens the same program is read, with its lines changed, or there is the same
    fault. -/
theorem follows_program {f : Nat → Nat} {g : Token → Token} (hg : Token.Relabels f g) :
    Follows g (List.map (Statement.mapLines f)) program program := by
  intro tokens
  have htokens : List.Forall₂ (relabeled hg).token tokens (tokens.map g) :=
    forall₂_eq_map_iff.mpr rfl
  -- The readers are compared on the tokens and their images, and end alike on them.
  have hends := mirrors_program tokens (tokens.map g) htokens
  generalize program tokens = result, program (tokens.map g) = result' at hends ⊢
  cases hends with
  | ok hread _ _ hrest =>
    obtain rfl := forall₂_eq_map_iff.mp hread
    obtain rfl := forall₂_eq_map_iff.mp hrest
    rfl
  | error hfault _ hrest _ =>
    obtain rfl := forall₂_eq_map_iff.mp hrest
    exact ⟨_, rfl, hfault.withoutFound_eq⟩
  | stopped hroomier => exact hroomier.elim

end Grammar

end Script
