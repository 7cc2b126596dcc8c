import Script.Proofs.GrammarSteps
import Script.Proofs.ReaderCongruence

/-!
# The rules of the grammar side by side

Every rule of the grammar respects `Parser.Mirrors`. This is the only walk over the rules that
compares readings or follows what one of them consumes and where it fails: that tokens may be
relabeled, that errors are about tokens, that more room changes nothing and that reading ends are
all cases of it.

A level that is opened costs a token, but for a statement that is only an expression: it opens two
levels on the same token. So with room for more levels than there are tokens, and one more for
statements, no rule stops for nesting too deeply.

## Key results

- `Grammar.mirrors_expression`, `Grammar.mirrors_statement`: expressions and statements, by
  induction on the levels that may still be opened
- `Grammar.mirrors_program`: whole programs
- `Grammar.Rule.mirrors`: all rules, beside themselves with more room
-/

namespace Script

namespace Grammar

open Script.Parser

variable {c : Comparison} {least enough : Nat}

/-- Both readings stop at the next token, or at the end of the tokens. -/
private theorem mirrors_tooDeep {α β : Type} {related : α → β → Prop} :
    Mirrors c related least 0 tooDeep tooDeep := by
  intro tokens tokens' htokens
  cases htokens with
  | nil => exact .error (.tooDeepAtEnd rfl) List.nil_suffix .nil fun _ => Nat.zero_le _
  | cons ht hrest =>
    exact .error (.tooDeep ht rfl) (List.suffix_refl _) (.cons ht hrest) fun _ => Nat.zero_le _

/-- Where only the first reading has no room, nothing is said about the second one. -/
private theorem mirrors_of_roomier {α β : Type} {related : α → β → Prop} (h : c.roomier)
    (q : Parser β) :
    Mirrors c related least 0 tooDeep q :=
  fun tokens _ _ => .stopped h rfl (List.suffix_refl tokens) (Nat.zero_le _)

/-! ## Expressions -/

/-- Only the kind of the next token decides whether it fits a unary operator. -/
private theorem mirrors_checkOperand (op : UnaryOp) :
    Mirrors c Eq 0 enough (checkOperand op) (checkOperand op) := by
  unfold checkOperand
  split
  · exact .pure rfl
  · refine .bind .peek fun found found' hfound => ?_
    cases hfound with
    | none => exact .ended _
    | some ht =>
      simp only [Option.any_some, c.kind ht]
      split
      · exact .pure rfl
      · exact .unexpected _ ht

/-- An operator is read with its line. -/
private theorem tries_nextOperator (tightness : Nat) :
    Tries c (fun read read' => read' = Prod.map id c.lineOf read) (nextOperator tightness)
      (nextOperator tightness) := by
  intro tokens tokens' htokens
  rcases noOperator_or tightness tokens with hnone | ⟨t, rest, op, rfl, hop, htight⟩
  · -- Without an operator in front of the first tokens, there is none in front of the second.
    have hnone' : NoOperator tightness tokens' := by
      cases htokens with
      | nil => exact hnone
      | cons ht _ =>
        rintro _ ⟨⟩ op hop
        exact hnone _ rfl op ((congrArg _ (c.kind ht)).symm.trans hop)
    exact .inl ⟨nextOperator_of_noOperator hnone, nextOperator_of_noOperator hnone'⟩
  · cases htokens with
    | @cons _ t' _ rest' ht hrest =>
      have hop' : BinaryOp.ofToken? t'.kind = some op := (congrArg _ (c.kind ht)).trans hop
      refine .inr ⟨_, _, rest, rest', nextOperator_of_some hop htight,
        nextOperator_of_some hop' htight, ?_, List.suffix_cons t rest, Nat.lt_add_one _, hrest⟩
      rw [c.line ht]
      rfl

/-- The name and the equals sign of an assignment are read with the line of the name. -/
private theorem tries_assignmentTarget :
    Tries c (fun target target' => target' = Prod.map id c.lineOf target) assignmentTarget
      assignmentTarget := by
  intro tokens tokens' htokens
  by_cases hstarts : StartsAssignment tokens
  · obtain ⟨token, sign, more, name, rfl, hname, hsign⟩ := hstarts
    cases htokens with
    | @cons _ token' _ _ htoken hrest =>
      cases hrest with
      | @cons _ sign' _ more' hs hmore =>
        have hread' : assignmentTarget (token' :: sign' :: more') = _ :=
          assignmentTarget_of_starts ((c.kind htoken).trans hname) ((c.kind hs).trans hsign)
        refine .inr ⟨_, _, more, more', assignmentTarget_of_starts hname hsign, hread', ?_,
          (List.suffix_cons sign more).trans (List.suffix_cons token _), ?_, hmore⟩
        · rw [c.line htoken]
          rfl
        · simp only [List.length_cons]
          omega
  · -- The second tokens start an assignment only if the first ones do.
    have hstarts' : ¬ StartsAssignment tokens' := by
      intro hstarts'
      obtain ⟨token', sign', more', name, rfl, hname, hsign⟩ := hstarts'
      cases htokens with
      | cons htoken hrest =>
        cases hrest with
        | cons hs _ =>
          exact hstarts ⟨_, _, _, name, rfl, (c.kind htoken).symm.trans hname,
            (c.kind hs).symm.trans hsign⟩
    exact .inl ⟨assignmentTarget_of_not_starts hstarts, assignmentTarget_of_not_starts hstarts'⟩

/-- Operators and operands are grouped in the same way, since the tokens that bound the rounds are
    as many. -/
private theorem mirrors_operations {operand operand' : Parser Expr}
    (ho : Mirrors c c.expr 1 enough operand operand') (tightness : Nat) {bound bound' : List Token}
    (hbound : List.Forall₂ c.token bound bound') {left left' : Expr} (hleft : c.expr left left') :
    Mirrors c c.expr 0 enough (operations tightness operand bound left)
      (operations tightness operand' bound' left') := by
  induction hbound generalizing left left' with
  | nil => exact .pure hleft
  | cons _ _ ih =>
    refine (tries_nextOperator tightness).bind (fun read read' hread => ?_) (.pure hleft)
    subst hread
    have hright := ho.mono (Nat.zero_le 1) (Nat.sub_le enough 1)
    refine .bind hright fun right right' hright => ?_
    -- Both sides add the same operator to what they have grouped so far.
    have hgrouped : c.expr (.binary left read.1 right read.2)
        (.binary left' read.1 right' (c.lineOf read.2)) := by
      rw [hleft, hright]
      rfl
    exact (ih hgrouped).mono (Nat.le_refl 0) (Nat.sub_le enough 1)

section Nested

variable {nested nested' : Parser Expr} (hn : Mirrors c c.expr 1 enough nested nested')

include hn

/-- A factor takes a token before anything nested is read, so that it may have one token more than
    what is nested. -/
private theorem mirrors_factor : Mirrors c c.expr 1 (enough + 1) (factor nested)
    (factor nested') := by
  refine tries_next.bind (fun t t' ht => ?_) (.ended _)
  have hreject : Mirrors c c.expr 0 enough _ _ := .unexpected .expression ht
  obtain ⟨lexeme, column, rfl⟩ := Comparison.exists_eq ht
  obtain ⟨kind, _, line, _⟩ := t
  -- The second token has the same kind, so that both readings take the same rule.
  cases kind with
  | literal value => exact .pure rfl
  | identifier name =>
    -- The arguments of a call have two tokens less, and one less would do.
    refine (tries_nextIf _).bind (fun _ _ _ => ?_) (.pure rfl)
    have harguments := Mirrors.listUntil hn .rightParen
    refine .bind (harguments.mono (Nat.zero_le 1) (Nat.sub_le enough 1))
      fun _ _ hsame => .pure ?_
    rw [Comparison.eq_mapLinesAll_expr hsame]
    rfl
  | keyword word => exact hreject
  | symbol sign =>
    cases sign with
    | leftParen =>
      exact .bind hn.weaken fun _ _ hinner => .bind (.weaken (.symbol _)) fun _ _ _ => .pure hinner
    | _ => exact hreject

/-- A unary expression looks at its first token, and is a factor or an operator before one. -/
private theorem mirrors_unary : Mirrors c c.expr 1 (enough + 1) (unary nested) (unary nested') := by
  refine .bind .peek fun found found' hfound => ?_
  cases hfound with
  | none => exact .ended _
  | some ht =>
    simp only [c.kind ht, c.line ht]
    split
    · exact mirrors_factor hn
    · exact .bind tries_next.mirrors fun _ _ _ => .bind (mirrors_checkOperand _) fun _ _ _ =>
        .bind (mirrors_factor hn) fun _ _ hoperand => .pure (by rw [hoperand]; rfl)

/-- All levels start on the same tokens, and it is the innermost one that consumes the first. -/
private theorem mirrors_level (n : Nat) :
    Mirrors c c.expr 1 (enough + 1) (level nested n) (level nested' n) := by
  induction n with
  | zero => exact mirrors_unary hn
  | succ n ih =>
    exact .bind ih fun _ _ hfirst => .bind .remaining fun _ _ hbound =>
      (mirrors_operations ih (8 - n) hbound hfirst).behind

/-- The second operand of a type test stands behind the first one. -/
private theorem mirrors_typeTest :
    Mirrors c c.expr 1 (enough + 1) (typeTest nested) (typeTest nested') := by
  refine .bind (mirrors_level hn 8) fun left left' hleft => .bind (tries_nextIf _).mirrors
    fun found found' hfound => ?_
  cases hfound with
  | none => exact .pure hleft
  | some ht =>
    refine .bind (mirrors_level hn 8).behind fun right right' hright => .pure ?_
    rw [hleft, hright, c.line ht.1]
    rfl

end Nested

/-- Expressions, by induction on the levels that may still be opened: with room for more levels than
    there are tokens, the limit is not reached. -/
theorem mirrors_expression {room room' : Nat} (h : c.Room room room') :
    Mirrors c c.expr 1 room (expression room) (expression room') := by
  induction room generalizing room' with
  | zero =>
    rcases h.of_zero with rfl | hroomier
    · exact mirrors_tooDeep
    · exact mirrors_of_roomier hroomier _
  | succ room ih =>
    obtain ⟨less, rfl, hless⟩ := h.of_succ
    -- An assignment opens a level behind two tokens, everything else behind that of a factor.
    refine tries_assignmentTarget.bind (fun target target' htarget => ?_)
      (mirrors_typeTest (ih hless))
    subst htarget
    exact .bind (ih hless).weaken fun _ _ hvalue => .pure (by rw [hvalue]; rfl)

/-! ## Statements -/

section Room

variable {room room' : Nat} (h : c.Room room room')

include h

/-- An expression in parentheses has the first one in front of it. -/
private theorem mirrors_condition : Mirrors c c.expr 1 (room + 1) (condition room)
    (condition room') :=
  .bind (.symbol _) fun _ _ _ => .bind (mirrors_expression h).weaken fun _ _ hvalue =>
    .bind (.weaken (.symbol _)) fun _ _ _ => .pure hvalue

/-- A declaration has two tokens in front of its initializer. -/
private theorem mirrors_declaration :
    Mirrors c c.statement 1 (room + 1) (declaration room) (declaration room') := by
  refine .bind (.keyword _) fun start start' hstart => .bind (.weaken .identifier)
    fun name _ hname => .bind (tries_nextIf _).mirrors fun found found' hfound => ?_
  subst hname
  rw [c.line hstart.1]
  cases hfound with
  | some _ =>
    exact .bind (mirrors_expression h).weaken fun init init' hinit =>
      .bind (.weaken (.symbol _)) fun _ _ _ => .pure (by rw [hinit]; rfl)
  | none => exact .bind (.weaken (.symbol _)) fun _ _ _ => .pure rfl

/-- A return statement has a token in front of its value. -/
private theorem mirrors_ret : Mirrors c c.statement 1 (room + 1) (ret room) (ret room') := by
  refine .bind (.keyword _) fun start start' hstart => .bind (.nextIs _) fun bare _ hbare => ?_
  subst hbare
  rw [c.line hstart.1]
  split
  · exact .bind (.weaken (.symbol _)) fun _ _ _ => .pure rfl
  · exact .bind (mirrors_expression h).weaken fun value value' hvalue =>
      .bind (.weaken (.symbol _)) fun _ _ _ => .pure (by rw [hvalue]; rfl)

/-- An expression on its own starts with its first token. -/
private theorem mirrors_expressionStatement (line : Nat) :
    Mirrors c c.statement 1 room (expressionStatement room line)
      (expressionStatement room' (c.lineOf line)) :=
  .bind (mirrors_expression h) fun value value' hvalue => .bind (.weaken (.symbol _)) fun _ _ _ =>
    .pure (by rw [hvalue]; rfl)

end Room

/-- A parameter is two tokens, with nothing nested in it. -/
private theorem mirrors_parameter : Mirrors c Eq 1 enough parameter parameter :=
  .bind .typeName fun _ _ hkind => .bind (.weaken .identifier) fun _ _ hname =>
    .pure (by rw [hkind, hname])

section Inner

variable {inner inner' : Parser Statement} (hs : Mirrors c c.statement 1 enough inner inner')

include hs

/-- Statements up to a brace: the brace is a token, and so is the start of every statement. -/
private theorem mirrors_statementsToBrace {bound bound' : List Token}
    (hbound : List.Forall₂ c.token bound bound') :
    Mirrors c (List.Forall₂ c.statement) 0 enough (statementsToBrace inner bound)
      (statementsToBrace inner' bound') := by
  induction hbound with
  | nil => exact .ended _
  | cons _ _ ih =>
    refine .bind .peek fun found found' hfound => ?_
    cases hfound with
    | none => exact .ended _
    | some ht =>
      simp only [c.kind ht]
      split
      · exact .bind tries_next.mirrors fun _ _ _ => .pure .nil
      · exact .bind hs.weaken fun _ _ hfirst => .bind ih fun _ _ hmore =>
          .pure (.cons hfirst hmore)

/-- The opening brace of a block stands in front of the statements in it. -/
private theorem mirrors_braced :
    Mirrors c (List.Forall₂ c.statement) 1 (enough + 1) (braced inner) (braced inner') :=
  .bind (.symbol _) fun _ _ _ => .bind .remaining fun _ _ hbound =>
    mirrors_statementsToBrace hs hbound

/-- A block has the line of the token that it starts with. -/
private theorem mirrors_block : Mirrors c c.statement 1 (enough + 1) (block inner)
    (block inner') := by
  intro tokens tokens' htokens
  cases htokens with
  | nil => exact Mirrors.ended (.symbol .leftBrace) [] [] .nil
  | @cons t t' more more' ht hmore =>
    -- The line is that of the opening brace, which has been looked at.
    have hbody : Mirrors c c.statement 1 (enough + 1)
        (braced inner >>= fun body => pure (.block body t.line))
        (braced inner' >>= fun body => pure (.block body t'.line)) := by
      refine .bind (mirrors_braced hs) fun body body' hsame => .pure ?_
      rw [Comparison.eq_mapLinesAll_statement hsame, c.line ht]
      rfl
    exact hbody _ _ (.cons ht hmore)

/-- The body of a case stands behind a colon. -/
private theorem mirrors_caseBody : Mirrors c c.statement 0 enough (caseBody inner)
    (caseBody inner') :=
  .bind (.weaken (.symbol _)) fun _ _ _ => hs.weaken

/-- The cases come with the default case, which is handed on from round to round. A second default
    case is at fault at its underscore. -/
private theorem mirrors_cases {bound bound' : List Token}
    (hbound : List.Forall₂ c.token bound bound') (default : Option Statement) :
    Mirrors c c.cases 0 enough (cases inner bound default)
      (cases inner' bound' (Statement.mapLinesOption c.lineOf default)) := by
  induction hbound generalizing default with
  | nil => exact .ended _
  | cons _ _ ih =>
    refine .bind tries_next.mirrors fun found found' hfound => ?_
    cases hfound with
    | none => exact .ended _
    | @some t t' ht =>
      have hreject : Mirrors c c.cases 0 enough _ _ := .unexpected .matchCase ht
      have hduplicate (hkind : t.kind = .symbol .underscore) : Mirrors c c.cases 0 enough
          (fail .duplicateDefaultCase t.position) (fail .duplicateDefaultCase t'.position) :=
        .fail (fun _ => .duplicateDefault ht hkind) nofun
      obtain ⟨lexeme, column, rfl⟩ := Comparison.exists_eq ht
      obtain ⟨kind, _, line, _⟩ := t
      -- A type name starts a case, an underscore the default case, and a brace ends the cases.
      -- Everything else is rejected.
      cases kind with
      | literal value =>
        cases value with
        | type kind =>
          refine .bind (mirrors_caseBody hs) fun body body' hbody => .bind (ih default)
            fun read read' hread => .pure ?_
          rw [hbody, hread]
          rfl
        | _ => exact hreject
      | symbol sign =>
        cases sign with
        | rightBrace => exact .pure rfl
        | underscore =>
          cases default with
          | none =>
            refine .bind (mirrors_caseBody hs) fun body body' hbody => ?_
            rw [hbody]
            exact ih (some body)
          | some _ => exact hduplicate rfl
        | _ => exact hreject
      | _ => exact hreject

/-- A function that may not stand where it is, or repeats a parameter, is at fault at its first
    token. -/
private theorem mirrors_function (inFunction : Bool) :
    Mirrors c c.statement 1 (enough + 1) (function inFunction inner)
      (function inFunction inner') := by
  refine .bind (.keyword _) fun start start' hstart => .bind (.weaken .identifier)
    fun name _ hname => ?_
  subst hname
  -- Inside a function there is nothing to read behind the name.
  cases inFunction with
  | true => exact .fail (fun _ => .nestedFunction name hstart.1 hstart.2) nofun
  | false =>
    refine .bind (.weaken (.symbol _)) fun _ _ _ =>
      .bind (.weaken (.listUntil mirrors_parameter _)) fun params params' hparams => ?_
    rw [List.forall₂_eq_eq_eq] at hparams
    subst hparams
    split
    · rename_i repeated _
      exact .fail (fun _ => .duplicateParameter name repeated hstart.1 hstart.2) nofun
    · refine .bind (.weaken (.symbol _)) fun _ _ _ => .bind (.weaken .typeName)
        fun returnKind _ hreturn => .bind (mirrors_braced hs).behind fun body body' hbody =>
          .pure ?_
      subst hreturn
      rw [Comparison.eq_mapLinesAll_statement hbody, c.line hstart.1]
      rfl

variable {room room' : Nat} (h : c.Room room room') (henough : enough ≤ room)

include h henough

/-- A branch has its condition and its statements behind the word `if`. -/
private theorem mirrors_branch : Mirrors c c.statement 1 (enough + 1) (branch room inner)
    (branch room' inner') := by
  have hcondition := (mirrors_condition h).behind.mono (Nat.le_refl 0) henough
  refine .bind (.keyword _) fun start start' hstart => .bind hcondition fun test test' htest =>
    .bind hs.weaken fun yes yes' hyes => .bind (tries_nextIf _).mirrors
      fun found found' hfound => ?_
  rw [c.line hstart.1, htest, hyes]
  cases hfound with
  | some _ => exact .bind hs.weaken fun no no' hno => .pure (by rw [hno]; rfl)
  | none => exact .pure rfl

/-- A loop has its condition and its body behind the word `while`. -/
private theorem mirrors_loop : Mirrors c c.statement 1 (enough + 1) (loop room inner)
    (loop room' inner') := by
  have hcondition := (mirrors_condition h).behind.mono (Nat.le_refl 0) henough
  refine .bind (.keyword _) fun start start' hstart => .bind hcondition fun test test' htest =>
    .bind hs.weaken fun body body' hbody => .pure ?_
  rw [c.line hstart.1, htest, hbody]
  rfl

/-- A match statement has its subject and its cases behind the word `match`. -/
private theorem mirrors_select : Mirrors c c.statement 1 (enough + 1) (select room inner)
    (select room' inner') := by
  have hcondition := (mirrors_condition h).behind.mono (Nat.le_refl 0) henough
  refine .bind (.keyword _) fun start start' hstart => .bind hcondition
    fun subject subject' hsubject => .bind (.weaken (.symbol _)) fun _ _ _ => .bind .remaining
      fun bound bound' hbound => .bind (mirrors_cases hs hbound none) fun read read' hread =>
        .pure ?_
  rw [c.line hstart.1, hsubject, hread]
  rfl

end Inner

/-- Statements, by induction on the levels that may still be opened. A statement that is only an
    expression opens two levels on the same token, so that there is one more level than tokens.
    Without room a statement still has to begin, and where none begins the fault is the same. -/
theorem mirrors_statement {room room' : Nat} (h : c.Room room room') (inFunction : Bool) :
    Mirrors c c.statement 1 (room - 1) (statement room inFunction)
      (statement room' inFunction) := by
  induction room generalizing room' inFunction with
  | zero =>
    have hroom := h.of_zero
    cases room' with
    | zero =>
      refine .bind .peek fun found found' hfound => ?_
      cases hfound with
      | none => exact .ended _
      | some _ => exact mirrors_tooDeep
    | succ room' =>
      refine .bind .peek fun found found' hfound => ?_
      cases hfound with
      | none => exact .ended _
      | some _ => exact mirrors_of_roomier (hroom.resolve_left nofun) _
  | succ room ih =>
    obtain ⟨less, rfl, hless⟩ := h.of_succ
    -- The parts of a statement stand behind its first token, with a level and a token less.
    have hroom : room - 1 ≤ room := Nat.sub_le room 1
    have hsucc : room ≤ room - 1 + 1 := by omega
    refine .bind .peek fun found found' hfound => ?_
    cases hfound with
    | none => exact .ended _
    | @some t t' ht =>
      -- The kind of the first token says which rule reads the statement.
      simp only [c.kind ht, c.line ht]
      have hinner := ih hless inFunction
      split
      · exact (mirrors_block hinner).mono (Nat.le_refl 1) hsucc
      · exact (mirrors_declaration hless).mono (Nat.le_refl 1) (Nat.le_succ room)
      · exact (mirrors_branch hinner hless hroom).mono (Nat.le_refl 1) hsucc
      · exact (mirrors_loop hinner hless hroom).mono (Nat.le_refl 1) hsucc
      · exact (mirrors_select hinner hless hroom).mono (Nat.le_refl 1) hsucc
      · exact (mirrors_function (ih hless true) inFunction).mono (Nat.le_refl 1) hsucc
      · exact (mirrors_ret hless).mono (Nat.le_refl 1) (Nat.le_succ room)
      · exact mirrors_expressionStatement hless _

/-! ## Programs -/

/-- Statements up to the end of the tokens, each with room for all levels. -/
theorem mirrors_statementsToEnd {bound bound' : List Token}
    (hbound : List.Forall₂ c.token bound bound') :
    Mirrors c (List.Forall₂ c.statement) 0 (maxNesting - 1) (statementsToEnd bound)
      (statementsToEnd bound') := by
  induction hbound with
  | nil => exact .pure .nil
  | cons _ _ ih =>
    refine .bind .peek fun found found' hfound => ?_
    cases hfound with
    | none => exact .pure .nil
    | some _ =>
      have hstatement : Mirrors c c.statement 0 (maxNesting - 1) _ _ :=
        (mirrors_statement (.inl rfl) false).weaken
      exact .bind hstatement fun _ _ hfirst => .bind ih fun _ _ hmore => .pure (.cons hfirst hmore)

/-- From tokens that stand for each other the same program is read, with its lines changed, or there
    is the same fault. -/
theorem mirrors_program :
    Mirrors c (List.Forall₂ c.statement) 0 (maxNesting - 1) program program :=
  .bind .remaining fun _ _ hbound => mirrors_statementsToEnd hbound

/-! ## All rules -/

/-- The rules of the grammar, with what they read. -/
inductive Rule : Type → Type 1 where
  | symbol (sign : Symbol) : Rule Token
  | keyword (word : Keyword) : Rule Token
  | identifier : Rule String
  | typeName : Rule Kind
  /-- Items with commas between them, up to a closing sign. -/
  | list {α : Type} (item : Rule α) (closing : Symbol) : Rule (List α)
  | expression : Rule Expr
  | typeTest : Rule Expr
  /-- Level 8 holds the loosest operators, level 0 the unary expressions. -/
  | level (n : Nat) : Rule Expr
  | factor : Rule Expr
  | condition : Rule Expr
  | statement : Rule Statement
  | block : Rule Statement
  /-- The statements of a block or of a function, with their braces. -/
  | braced : Rule (List Statement)
  | declaration : Rule Statement
  | branch : Rule Statement
  | loop : Rule Statement
  | select : Rule Statement
  | function : Rule Statement
  | parameter : Rule Parameter
  | ret : Rule Statement
  | expressionStatement (line : Nat) : Rule Statement

/-- The reader of a rule, inside which `room` levels may still be opened, and that maybe stands in a
    function. -/
def Rule.reader (room : Nat) (inFunction : Bool) : {α : Type} → Rule α → Parser α
  | _, .symbol sign => Parser.symbol sign
  | _, .keyword word => Parser.keyword word
  | _, .identifier => Parser.identifier
  | _, .typeName => Parser.typeName
  | _, .list item closing => listUntil (item.reader room inFunction) closing
  | _, .expression => Grammar.expression room
  | _, .typeTest => Grammar.typeTest (Grammar.expression room)
  | _, .level n => Grammar.level (Grammar.expression room) n
  | _, .factor => Grammar.factor (Grammar.expression room)
  | _, .condition => Grammar.condition room
  | _, .statement => Grammar.statement room inFunction
  | _, .block => Grammar.block (Grammar.statement room inFunction)
  | _, .braced => Grammar.braced (Grammar.statement room inFunction)
  | _, .declaration => Grammar.declaration room
  | _, .branch => Grammar.branch room (Grammar.statement room inFunction)
  | _, .loop => Grammar.loop room (Grammar.statement room inFunction)
  | _, .select => Grammar.select room (Grammar.statement room inFunction)
  | _, .function => Grammar.function inFunction (Grammar.statement room true)
  | _, .parameter => Grammar.parameter
  | _, .ret => Grammar.ret room
  | _, .expressionStatement line => Grammar.expressionStatement room line

/-- Every rule consumes a token, with more levels than there are tokens it never needs one that may
    not be opened, and with more room it reads the same. -/
theorem Rule.mirrors {α : Type} (rule : Rule α) {roomier : Prop} {room room' : Nat}
    (h : (Comparison.itself roomier).Room room room') (inFunction : Bool) :
    Mirrors (.itself roomier) Eq 1 (room - 1) (rule.reader room inFunction)
      (rule.reader room' inFunction) := by
  have hexpression := mirrors_expression h
  have hstatement := mirrors_statement h
  have hroom : room - 1 ≤ room := Nat.sub_le room 1
  have hinner : room - 1 ≤ room - 1 + 1 := Nat.le_succ _
  have houter : room - 1 ≤ room + 1 := by omega
  have hone := Nat.le_refl 1
  -- Each rule needs as much room as its own walk says, which is no more than is there.
  induction rule with
  | symbol sign => exact (Mirrors.symbol sign).imp fun _ _ ht => ht.1
  | keyword word => exact (Mirrors.keyword word).imp fun _ _ ht => ht.1
  | identifier => exact .identifier
  | typeName => exact .typeName
  | list item closing ih =>
    refine (Mirrors.listUntil ih closing).imp fun _ _ hitems => ?_
    rwa [List.forall₂_eq_eq_eq] at hitems
  | expression => exact (hexpression.mono hone hroom).imp Comparison.eq_of_expr
  | typeTest =>
    exact ((mirrors_typeTest hexpression).mono hone houter).imp Comparison.eq_of_expr
  | level n => exact ((mirrors_level hexpression n).mono hone houter).imp Comparison.eq_of_expr
  | factor => exact ((mirrors_factor hexpression).mono hone houter).imp Comparison.eq_of_expr
  | condition => exact ((mirrors_condition h).mono hone houter).imp Comparison.eq_of_expr
  | statement => exact (hstatement inFunction).imp Comparison.eq_of_statement
  | block =>
    exact ((mirrors_block (hstatement inFunction)).mono hone hinner).imp Comparison.eq_of_statement
  | braced =>
    refine ((mirrors_braced (hstatement inFunction)).mono hone hinner).imp fun _ _ hbody => ?_
    rw [← List.forall₂_eq_eq_eq]
    exact hbody.imp Comparison.eq_of_statement
  | declaration =>
    exact ((mirrors_declaration h).mono hone houter).imp Comparison.eq_of_statement
  | branch =>
    exact ((mirrors_branch (hstatement inFunction) h hroom).mono hone hinner).imp
      Comparison.eq_of_statement
  | loop =>
    exact ((mirrors_loop (hstatement inFunction) h hroom).mono hone hinner).imp
      Comparison.eq_of_statement
  | select =>
    exact ((mirrors_select (hstatement inFunction) h hroom).mono hone hinner).imp
      Comparison.eq_of_statement
  | function =>
    exact ((mirrors_function (hstatement true) inFunction).mono hone hinner).imp
      Comparison.eq_of_statement
  | parameter => exact mirrors_parameter
  | ret => exact ((mirrors_ret h).mono hone houter).imp Comparison.eq_of_statement
  | expressionStatement line =>
    exact ((mirrors_expressionStatement h line).mono hone hroom).imp Comparison.eq_of_statement

end Grammar

end Script
