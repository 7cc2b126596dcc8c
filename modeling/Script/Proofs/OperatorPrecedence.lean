import Script.Proofs.GrammarComplete

/-!
# Operators group by how tightly they bind

Operands with binary operators between them can be grouped in many ways. A `Grouping` is one of
them, as a tree whose leaves are the operands. It is in order of precedence if at every operator the
left side has no looser operator on top, and the right side only a tighter one. `Grouping.build`
makes such a tree operator by operator: a new operator goes down the right side of the tree, past
all operators that are looser than itself. It is the only grouping of its operands that is in order
of precedence, and it is the one that the grammar reads, although the grammar has a rule for each
row of operators and no tree that changes while it is read.

## Key results

- `Grouping.ordered_build`, `Grouping.more_build`: what is built is ordered, and reads as given
- `Grouping.build_reading`: an ordered grouping is determined by its operands and operators
- `Grouping.Ordered.derives_typeTest`: the rules of the grammar derive ordered groupings
- `typeTest_groups_by_precedence`: the grammar reads the grouping that is built
-/

namespace Script

/-- The binary operators in rows, from the loosest to the tightest. -/
def BinaryOp.rows : List (List BinaryOp) :=
  [[.is], [.or], [.and], [.xor], [.equal, .notEqual], [.less, .lessEqual, .greater, .greaterEqual],
   [.add, .sub], [.mul, .div, .mod], [.pow]]

/-- The row of an operator: the higher it is, the tighter the operator binds. -/
def BinaryOp.rank (op : BinaryOp) : Nat :=
  rows.findIdx (·.contains op)

/-- The rank of an operator is how tightly the parser binds it. -/
private theorem BinaryOp.rank_eq_tightness (op : BinaryOp) : op.rank = op.tightness := by
  cases op <;> rfl

/-- Every operator but `is` stands in a row. -/
private theorem BinaryOp.rank_pos {op : BinaryOp} (h : op ≠ .is) : 0 < op.rank := by
  cases op with
  | is => exact absurd rfl h
  | _ => decide

namespace Grammar

open Script.Parser

/-- A token that stands for a binary operator: one of a row of operators, or `is`. -/
structure Sign where
  token : Token
  op : BinaryOp
  spelled : (∃ row ∈ operatorRows, (token.kind, op) ∈ row) ∨ token.kind = .keyword .kwIs ∧ op = .is

/-- The grammar takes the token for the same operator. -/
private theorem Sign.ofToken?_eq (sign : Sign) :
    BinaryOp.ofToken? sign.token.kind = some sign.op := by
  rcases sign.spelled with ⟨row, hrow, hmem⟩ | ⟨hkind, hop⟩
  · obtain ⟨n, hn⟩ := List.mem_iff_getElem?.mp hrow
    exact ((mem_operatorRows_iff n _ _).mp ⟨row, hn, hmem⟩).2.1
  · rw [hkind, hop]
    rfl

/-- An operand: tokens that are read as a unary expression, all of them, where `depth` statements
    and expressions are open. -/
structure Term (depth : Nat) where
  tokens : List Token
  expr : Expr
  reads : unary (expression (maxNesting - depth)) tokens = .ok expr []

/-- The tokens of operands with operators between them. -/
def chainTokens {depth : Nat} (first : Term depth) (more : List (Sign × Term depth)) :
    List Token :=
  first.tokens ++ more.flatMap fun entry => entry.1.token :: entry.2.tokens

/-! ## Groupings -/

/-- A way of grouping operands by the operators between them. -/
inductive Grouping (depth : Nat) where
  | term (operand : Term depth)
  | node (left : Grouping depth) (sign : Sign) (right : Grouping depth)

namespace Grouping

variable {depth : Nat}

/-- The first operand. -/
def first : Grouping depth → Term depth
  | term operand => operand
  | node left _ _ => left.first

/-- The operators with the operands behind them, from left to right. -/
def more : Grouping depth → List (Sign × Term depth)
  | term _ => []
  | node left sign right => left.more ++ (sign, right.first) :: right.more

/-- The operator that joins the operands last. -/
def root? : Grouping depth → Option BinaryOp
  | term _ => none
  | node _ sign _ => some sign.op

/-- The expression in which the operators are applied as they are grouped. -/
def toExpr : Grouping depth → Expr
  | term operand => operand.expr
  | node left sign right => .binary left.toExpr sign.op right.toExpr sign.token.line

/-- At every operator, the one on the left binds at least as tightly, and the one on the right
    more tightly. -/
def Ordered : Grouping depth → Prop
  | term _ => True
  | node left sign right =>
    left.Ordered ∧ right.Ordered ∧ (∀ op ∈ left.root?, sign.op.rank ≤ op.rank) ∧
      ∀ op ∈ right.root?, sign.op.rank < op.rank

/-- Adds an operator and its right operand at the end. The operator takes as its left operand what
    is on the right of all looser operators. -/
def push : Grouping depth → Sign → Term depth → Grouping depth
  | term operand, sign, last => node (term operand) sign (term last)
  | node left top right, sign, last =>
    if top.op.rank < sign.op.rank then node left top (right.push sign last)
    else node (node left top right) sign (term last)

/-- Adds operators with their right operands, one after the other. -/
def pushAll (g : Grouping depth) (entries : List (Sign × Term depth)) : Grouping depth :=
  entries.foldl (fun g entry => g.push entry.1 entry.2) g

/-- The grouping of operands that is in order of precedence. -/
def build (first : Term depth) (more : List (Sign × Term depth)) : Grouping depth :=
  (term first).pushAll more

/-! ## What is built -/

/-- One more operator does not change the first operand. -/
private theorem first_push (g : Grouping depth) (sign : Sign) (last : Term depth) :
    (g.push sign last).first = g.first := by
  cases g with
  | term operand => rfl
  | node left top right =>
    rw [push]
    split <;> rfl

/-- One more operator stands behind the others, with its operand. -/
private theorem more_push (g : Grouping depth) (sign : Sign) (last : Term depth) :
    (g.push sign last).more = g.more ++ [(sign, last)] := by
  induction g with
  | term operand => rfl
  | node left top right _ ihright =>
    rw [push]
    split
    · simp only [more, first_push, ihright, List.append_assoc, List.cons_append]
    · rfl

/-- The operator that is added comes to the top, or it goes below the one that is there. -/
private theorem root?_push {g : Grouping depth} {sign : Sign} {last : Term depth} {op : BinaryOp}
    (h : op ∈ (g.push sign last).root?) : op = sign.op ∨ op ∈ g.root? := by
  cases g with
  | term operand =>
    cases h
    exact .inl rfl
  | node left top right =>
    rw [push] at h
    split at h
    · exact .inr h
    · cases h
      exact .inl rfl

/-- A grouping stays ordered with one more operator. -/
theorem Ordered.push {g : Grouping depth} (h : g.Ordered) (sign : Sign) (last : Term depth) :
    (g.push sign last).Ordered := by
  induction g with
  | term operand => exact ⟨trivial, trivial, nofun, nofun⟩
  | node left top right _ ihright =>
    obtain ⟨hleft, hright, hlower, hupper⟩ := h
    rw [Grouping.push]
    split
    · rename_i hlooser
      refine ⟨hleft, ihright hright, hlower, fun op hop => ?_⟩
      -- On the right there is now the new operator on top, or the one that was there.
      rcases root?_push hop with rfl | hop
      · exact hlooser
      · exact hupper op hop
    · rename_i htighter
      refine ⟨⟨hleft, hright, hlower, hupper⟩, trivial, ?_, nofun⟩
      rintro _ ⟨⟩
      exact Nat.le_of_not_lt htighter

/-- Further operators do not change the first operand. -/
private theorem first_pushAll (g : Grouping depth) (entries : List (Sign × Term depth)) :
    (g.pushAll entries).first = g.first := by
  induction entries generalizing g with
  | nil => rfl
  | cons entry entries ih => exact (ih _).trans (first_push g _ _)

/-- Further operators stand behind the others, with their operands. -/
private theorem more_pushAll (g : Grouping depth) (entries : List (Sign × Term depth)) :
    (g.pushAll entries).more = g.more ++ entries := by
  induction entries generalizing g with
  | nil => exact (List.append_nil _).symm
  | cons entry entries ih =>
    have hrest : (g.pushAll (entry :: entries)).more =
        (g.push entry.1 entry.2).more ++ entries := ih _
    rw [hrest, more_push, List.append_assoc]
    rfl

/-- A grouping stays ordered with further operators. -/
private theorem Ordered.pushAll {g : Grouping depth} (h : g.Ordered)
    (entries : List (Sign × Term depth)) : (g.pushAll entries).Ordered := by
  induction entries generalizing g with
  | nil => exact h
  | cons entry entries ih => exact ih (h.push _ _)

/-- The grouping that is built starts with the first operand. -/
private theorem first_build (first : Term depth) (more : List (Sign × Term depth)) :
    (build first more).first = first :=
  first_pushAll _ more

/-- The grouping that is built has the operators and operands in their order. -/
theorem more_build (first : Term depth) (more : List (Sign × Term depth)) :
    (build first more).more = more :=
  more_pushAll _ more

/-- The grouping that is built is ordered. -/
theorem ordered_build (first : Term depth) (more : List (Sign × Term depth)) :
    (build first more).Ordered :=
  Ordered.pushAll (g := .term first) trivial more

/-! ## Only one grouping is ordered -/

/-- No operator in an ordered grouping is looser than the one on top. -/
private theorem Ordered.le_rank {g : Grouping depth} (h : g.Ordered) {bound : Nat}
    (hroot : ∀ op ∈ g.root?, bound ≤ op.rank) : ∀ entry ∈ g.more, bound ≤ entry.1.op.rank := by
  intro entry hentry
  induction g with
  | term operand => cases hentry
  | node left sign right ihleft ihright =>
    obtain ⟨hleft, hright, hlower, hupper⟩ := h
    have htop : bound ≤ sign.op.rank := hroot _ rfl
    -- An operator on the left or on the right is at least as tight as the one on top there.
    rcases List.mem_append.mp hentry with hentry | hentry
    · exact ihleft hleft (fun op hop => Nat.le_trans htop (hlower op hop)) hentry
    · rcases List.mem_cons.mp hentry with rfl | hentry
      · exact htop
      · exact ihright hright (fun op hop => Nat.le_trans htop (Nat.le_of_lt (hupper op hop))) hentry

/-- An operator that is not tighter than the one on top takes all there is as its left operand. -/
private theorem push_of_root {g : Grouping depth} {sign : Sign}
    (h : ∀ op ∈ g.root?, sign.op.rank ≤ op.rank) (last : Term depth) :
    g.push sign last = node g sign (term last) := by
  cases g with
  | term operand => rfl
  | node left top right => exact if_neg (Nat.not_lt_of_le (h _ rfl))

/-- Operators that are all tighter than the one on top are added to its right operand. -/
private theorem pushAll_node {left right : Grouping depth} {sign : Sign}
    {entries : List (Sign × Term depth)} (h : ∀ entry ∈ entries, sign.op.rank < entry.1.op.rank) :
    (node left sign right).pushAll entries = node left sign (right.pushAll entries) := by
  induction entries generalizing right with
  | nil => rfl
  | cons entry entries ih =>
    rw [List.forall_mem_cons] at h
    have hpush : (node left sign right).push entry.1 entry.2 =
        node left sign (right.push entry.1 entry.2) := if_pos h.1
    have hrest : (node left sign (right.push entry.1 entry.2)).pushAll entries =
        node left sign ((right.push entry.1 entry.2).pushAll entries) := ih h.2
    rw [← hpush] at hrest
    exact hrest

/-- An ordered grouping is the one that is built from its operands and operators. -/
theorem build_reading {g : Grouping depth} (h : g.Ordered) : build g.first g.more = g := by
  induction g with
  | term operand => rfl
  | node left sign right ihleft ihright =>
    obtain ⟨hleft, hright, hlower, hupper⟩ := h
    have htighter : ∀ entry ∈ right.more, sign.op.rank < entry.1.op.rank :=
      hright.le_rank hupper
    calc build (node left sign right).first (node left sign right).more
        = ((build left.first left.more).push sign right.first).pushAll right.more := by
          simp only [build, pushAll, first, more, List.foldl_append, List.foldl_cons]
      _ = (left.push sign right.first).pushAll right.more := by rw [ihleft hleft]
      _ = (node left sign (term right.first)).pushAll right.more := by rw [push_of_root hlower]
      _ = node left sign (build right.first right.more) := pushAll_node htighter
      _ = node left sign right := by rw [ihright hright]

/-! ## Ordered groupings are derived -/

/-- The tokens of a node are those of its two sides, with the operator between them. -/
private theorem chainTokens_node (left right : Grouping depth) (sign : Sign) :
    chainTokens (node left sign right).first (node left sign right).more =
      chainTokens left.first left.more ++ sign.token :: chainTokens right.first right.more := by
  simp [chainTokens, first, more]

/-- The operator on top is one of the operators. -/
private theorem root?_mem {g : Grouping depth} {op : BinaryOp} (h : op ∈ g.root?) :
    op ∈ g.more.map (·.1.op) := by
  cases g with
  | term operand => cases h
  | node left sign right =>
    cases h
    simp [more]

end Grouping

/-- A chain of one level is a chain of every looser level. -/
private theorem Derives.chain_of_le {level n n' : Nat} {tokens : List Token} {e : Expr}
    (h : Derives level (.chain n) tokens e) (hn : n ≤ n') :
    Derives level (.chain n') tokens e := by
  induction hn with
  | refl => exact h
  | step _ ih => exact .single ih

/-- Only the keyword `is` stands for the operator of this name. -/
private theorem kind_of_ofToken?_is {kind : TokenKind} (h : BinaryOp.ofToken? kind = some .is) :
    kind = .keyword .kwIs := by
  unfold BinaryOp.ofToken? at h
  split at h <;> cases h
  rfl

section Derivations

variable {depth d : Nat}

/-- The tokens of an operand are a unary phrase of the grammar. -/
private theorem Term.derives (hd : d + (maxNesting - depth) = maxNesting) (t : Term depth) :
    Derives d .unary t.tokens t.expr := by
  have hnested : Sound (expression (maxNesting - depth)) (Derives (d + 1) .expression) :=
    expression_sound (by omega)
  obtain ⟨consumed, heq, hderives⟩ := unary_sound hnested t.reads
  rw [List.append_nil] at heq
  rwa [heq]

namespace Grouping.Ordered

variable {g : Grouping depth}

/-- A grouping with no looser operators than those of a level is a chain of that level. The operator
    on top belongs to one of the rows, and its operands to the levels that the rule for this row
    asks for. -/
private theorem derives_chain (hd : d + (maxNesting - depth) = maxNesting) (h : g.Ordered) {n : Nat}
    (hn : n ≤ 8) (hroot : ∀ op ∈ g.root?, 9 - n ≤ op.rank) :
    Derives d (.chain n) (chainTokens g.first g.more) g.toExpr := by
  induction g generalizing n with
  | term operand =>
    have htokens : chainTokens (term operand).first (term operand).more = operand.tokens :=
      List.append_nil _
    rw [htokens]
    exact (Derives.operand (operand.derives hd)).chain_of_le (Nat.zero_le n)
  | node left sign right ihleft ihright =>
    obtain ⟨hleft, hright, hlower, hupper⟩ := h
    have htop : 9 - n ≤ sign.op.rank := hroot _ rfl
    have hle : sign.op.rank ≤ 8 := by
      cases sign.op <;> decide
    -- The row of the operator, counted from the tightest.
    obtain ⟨row, hrow, hrank⟩ : ∃ row, row < n ∧ sign.op.rank = 8 - row :=
      ⟨8 - sign.op.rank, by omega, by omega⟩
    obtain ⟨entries, hentries, hmem⟩ := (mem_operatorRows_iff row sign.token.kind sign.op).mpr
      ⟨by omega, sign.ofToken?_eq, by rw [← BinaryOp.rank_eq_tightness, hrank]⟩
    have hleft' : Derives d (.chain (row + 1)) (chainTokens left.first left.more) left.toExpr :=
      ihleft hleft (by omega) fun op hop => by
        have := hlower op hop
        omega
    have hright' : Derives d (.chain row) (chainTokens right.first right.more) right.toExpr :=
      ihright hright (by omega) fun op hop => by
        have := hupper op hop
        omega
    rw [chainTokens_node]
    exact (Derives.operation hentries hmem hleft' hright').chain_of_le hrow

/-- A grouping with at most one test of a kind is a type test. -/
theorem derives_typeTest (hd : d + (maxNesting - depth) = maxNesting) (h : g.Ordered)
    (hone : (g.more.map (·.1.op)).count .is ≤ 1) :
    Derives d .typeTest (chainTokens g.first g.more) g.toExpr := by
  by_cases htest : BinaryOp.is ∈ g.root?
  · cases g with
    | term operand => cases htest
    | node left sign right =>
      obtain ⟨hleft, hright, hlower, hupper⟩ := h
      have hop : sign.op = .is := Option.some.inj htest
      -- The test on top is the only one, so that there is none on its left.
      have hnone : BinaryOp.is ∉ left.more.map (·.1.op) := by
        simp only [more, List.map_append, List.map_cons, hop, List.count_append,
          List.count_cons_self] at hone
        exact List.count_eq_zero.mp (by omega)
      have hleft' : Derives d (.chain 8) (chainTokens left.first left.more) left.toExpr :=
        derives_chain hd hleft (Nat.le_refl 8) fun op hroot => by
          refine BinaryOp.rank_pos fun heq => hnone ?_
          rw [← heq]
          exact root?_mem hroot
      have hright' : Derives d (.chain 8) (chainTokens right.first right.more) right.toExpr :=
        derives_chain hd hright (Nat.le_refl 8) fun op hroot => by
          have := hupper op hroot
          omega
      rw [chainTokens_node, toExpr, hop]
      exact .tested (kind_of_ofToken?_is (hop ▸ sign.ofToken?_eq)) hleft' hright'
  · refine .untested (derives_chain hd h (Nat.le_refl 8) fun op hop => ?_)
    exact BinaryOp.rank_pos fun heq => htest (heq ▸ hop)

end Grouping.Ordered

end Derivations

/-- Operands with binary operators between them, of which at most one is `is`, are read as a type
    test up to the end of the tokens or up to a semicolon, a comma or a closing parenthesis. What is
    read is the grouping that is built from them in order of precedence. Read from left to right it
    is the same operands and operators, at every operator the one on the left binds at least as
    tightly and the one on the right more tightly, and no other grouping is so. -/
theorem typeTest_groups_by_precedence (depth : Nat) (first : Term depth)
    (more : List (Sign × Term depth)) (hone : (more.map (·.1.op)).count .is ≤ 1)
    (rest : List Token) (hrest : ∀ token ∈ rest.head?, EndsExpression token.kind) :
    typeTest (expression (maxNesting - depth)) (chainTokens first more ++ rest) =
        .ok (Grouping.build first more).toExpr rest ∧
      (Grouping.build first more).first = first ∧ (Grouping.build first more).more = more ∧
      (Grouping.build first more).Ordered ∧
      ∀ g : Grouping depth, g.Ordered → g.first = first → g.more = more →
        g = Grouping.build first more := by
  have hfirst := Grouping.first_build first more
  have hmore := Grouping.more_build first more
  have hordered := Grouping.ordered_build first more
  refine ⟨?_, hfirst, hmore, hordered, ?_⟩
  · have hd : maxNesting - (maxNesting - depth) + (maxNesting - depth) = maxNesting := by omega
    have hderives := hordered.derives_typeTest hd (by rw [hmore]; exact hone)
    rw [hfirst, hmore] at hderives
    have hnested : CompleteExpression (expression (maxNesting - depth))
        (maxNesting - (maxNesting - depth) + 1) := expression_complete (by omega)
    -- Nothing follows, or a token that ends expressions.
    cases rest with
    | nil => exact typeTest_complete hnested hderives .nil (NotNext_nil _)
    | cons closing rest =>
      have hclosing : EndsExpression closing.kind := hrest closing rfl
      exact typeTest_complete hnested hderives hclosing.stops hclosing.not_is
  · intro g hg hgfirst hgmore
    rw [← Grouping.build_reading hg, hgfirst, hgmore]

/-- Two subtractions, the second one of a product that starts with a sum in parentheses, and a test
    of the whole, in front of a closing parenthesis. -/
theorem typeTest_groups_by_precedence_subtractions :
    let minus (column : Nat) : Token := ⟨.symbol .minus, "-", 1, column⟩
    let digit (n : Int32) (lexeme : String) (column : Nat) : Token :=
      ⟨.literal (.integer n), lexeme, 1, column⟩
    let sum : List Token :=
      [⟨.symbol .leftParen, "(", 1, 9⟩, digit 2 "2" 10, ⟨.symbol .plus, "+", 1, 12⟩,
        digit 3 "3" 14, ⟨.symbol .rightParen, ")", 1, 15⟩]
    let closing : Token := ⟨.symbol .rightParen, ")", 1, 26⟩
    typeTest (expression 63)
        ([⟨.identifier "a", "a", 1, 1⟩, minus 3, digit 1 "1" 5, minus 7] ++ sum ++
          [⟨.symbol .star, "*", 1, 17⟩, digit 4 "4" 19, ⟨.keyword .kwIs, "is", 1, 21⟩,
            ⟨.literal (.type .integer), "INT", 1, 24⟩, closing]) =
      .ok (.binary
        (.binary (.binary (.identifier "a" 1) .sub (.literal (.integer 1) 1) 1) .sub
          (.binary (.binary (.literal (.integer 2) 1) .add (.literal (.integer 3) 1) 1) .mul
            (.literal (.integer 4) 1) 1) 1)
        .is (.literal (.type .integer) 1) 1) [closing] := by
  intro minus digit sum closing
  let first : Term 1 := ⟨[⟨.identifier "a", "a", 1, 1⟩], _, rfl⟩
  let sub (column : Nat) : Sign :=
    ⟨minus column, .sub, .inl (show ∃ row ∈ operatorRows, (.symbol .minus, .sub) ∈ row by decide)⟩
  let mul : Sign := ⟨⟨.symbol .star, "*", 1, 17⟩, .mul, .inl (by decide)⟩
  let test : Sign := ⟨⟨.keyword .kwIs, "is", 1, 21⟩, .is, .inr ⟨rfl, rfl⟩⟩
  let more : List (Sign × Term 1) :=
    [(sub 3, ⟨[digit 1 "1" 5], _, rfl⟩), (sub 7, ⟨sum, _, rfl⟩),
      (mul, ⟨[digit 4 "4" 19], _, rfl⟩),
      (test, ⟨[⟨.literal (.type .integer), "INT", 1, 24⟩], _, rfl⟩)]
  exact (typeTest_groups_by_precedence 1 first more (by decide) [closing]
    (by rintro _ ⟨⟩; exact .parenthesis)).1

end Grammar

end Script
