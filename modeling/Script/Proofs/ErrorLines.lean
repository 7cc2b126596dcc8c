import Script.Proofs.ErrorPositions
import Script.Proofs.GrammarSound
import Script.Proofs.RunSimulation
import Script.Proofs.ScopeDepth

/-!
# The lines that errors name

Every node of a tree has the line of one of the tokens that it was read from, and evaluation takes
the lines of its errors from the trees. The line may have come a long way: from the node of a
function that was declared, moved through variables and called from elsewhere, or from a call that
the host rejects. `Correspondence.onLines` says that all lines that can occur in a run have a
property, and the run itself adds none.

## Key results

- `Grammar.Derives.allLines`, `Grammar.DerivesStatement.allLines`: lines in trees are lines of
  tokens
- `simulation_onLines`: lines in runs are lines in trees
- `runtime_error_on_token_line`: an error of a run names the line of a token
-/

namespace Script

/-! ## Lines in trees -/

/-- The lines of an expression and of all expressions in it have a property. -/
inductive Expr.AllLines (P : Nat → Prop) : Expr → Prop where
  | intro {e : Expr} : P e.line → (∀ part ∈ e.parts, AllLines P part) → AllLines P e

/-- The lines of a statement and of all statements and expressions in it have a property. -/
inductive Statement.AllLines (P : Nat → Prop) : Statement → Prop where
  | intro {s : Statement} :
      P s.line → (∀ e ∈ s.expressions, e.AllLines P) → (∀ part ∈ s.parts, AllLines P part) →
        AllLines P s

namespace Grammar

variable {P : Nat → Prop}

/-- The tokens of a part are tokens of the whole list. -/
private theorem Separated.mem_of_mem_part {parts : List (List Token)} {tokens part : List Token}
    (h : Separated parts tokens) (hpart : part ∈ parts) {token : Token} (htoken : token ∈ part) :
    token ∈ tokens := by
  induction h with
  | none => cases hpart
  | one part =>
    obtain rfl := List.mem_singleton.mp hpart
    exact htoken
  | more _ _ ih =>
    rcases List.mem_cons.mp hpart with rfl | hpart
    · exact List.mem_append_left _ htoken
    · exact List.mem_append_right _ (List.mem_cons_of_mem _ (ih hpart))

/-- Every node of an expression has the line of one of its tokens. -/
theorem Derives.allLines {level : Nat} {phrase : Phrase} {tokens : List Token} {e : Expr}
    (h : Derives level phrase tokens e) (hP : ∀ token ∈ tokens, P token.line) :
    e.AllLines P := by
  -- Each phrase stores the line of one of its own tokens, and its parts are phrases of its tokens.
  induction h with
  | literal | identifier => exact .intro (hP _ List.mem_cons_self) (List.forall_mem_nil _)
  | call _ _ _ hseparated _ ih =>
    refine .intro (hP _ List.mem_cons_self) fun part hpart => ?_
    obtain ⟨argument, hargument, rfl⟩ := List.mem_map.mp hpart
    refine ih argument hargument fun token htoken => hP token ?_
    have hmem := hseparated.mem_of_mem_part (List.mem_map_of_mem hargument) htoken
    simp [hmem]
  | parentheses _ _ _ ih => exact ih fun token htoken => hP token (by simp [htoken])
  | unary _ _ _ ih =>
    have hoperand := ih fun token htoken => hP token (List.mem_cons_of_mem _ htoken)
    exact .intro (hP _ List.mem_cons_self) (List.forall_mem_singleton.mpr hoperand)
  | operation _ _ _ _ ihleft ihright | tested _ _ _ ihleft ihright =>
    have hleft := ihleft fun token htoken => hP token (by simp [htoken])
    have hright := ihright fun token htoken => hP token (by simp [htoken])
    refine .intro (hP _ (by simp)) (List.forall_mem_cons.mpr ⟨hleft, ?_⟩)
    exact List.forall_mem_singleton.mpr hright
  | assign _ _ _ _ ih =>
    have hvalue := ih fun token htoken => hP token (by simp [htoken])
    exact .intro (hP _ List.mem_cons_self) (List.forall_mem_singleton.mpr hvalue)
  | bare _ ih | operand _ ih | single _ ih | untested _ ih | plain _ _ ih => exact ih hP

/-- Statements one after the other have the lines of their tokens if each of them does. -/
private theorem allLines_parts {parts : List (List Token × Statement)}
    (hparts : ∀ part ∈ parts, (∀ token ∈ part.1, P token.line) → part.2.AllLines P)
    (hP : ∀ token ∈ (parts.map Prod.fst).flatten, P token.line) :
    ∀ s ∈ parts.map Prod.snd, s.AllLines P := by
  intro s hs
  obtain ⟨part, hpart, rfl⟩ := List.mem_map.mp hs
  refine hparts part hpart fun token htoken => hP token ?_
  exact List.mem_flatten_of_mem (List.mem_map_of_mem hpart) htoken

/-- Cases have the lines of their tokens if each of their bodies does. -/
private theorem allLines_cases {cases : List Case}
    (hcases : ∀ c ∈ cases, (∀ token ∈ c.tokens, P token.line) → c.body.AllLines P)
    (hP : ∀ token ∈ (cases.map Case.allTokens).flatten, P token.line) :
    ∀ s ∈ (typedCases cases).map Prod.snd ++ (defaultBodies cases).head?.toList,
      s.AllLines P := by
  -- The body of every case is there, and those that are kept are among them.
  have hbody (c : Case) (hc : c ∈ cases) : c.body.AllLines P := by
    refine hcases c hc fun token htoken => hP token ?_
    have hall : token ∈ c.allTokens := List.mem_cons_of_mem _ (List.mem_cons_of_mem _ htoken)
    exact List.mem_flatten_of_mem (List.mem_map_of_mem hc) hall
  intro s hs
  rcases List.mem_append.mp hs with hs | hs
  · obtain ⟨entry, hentry, rfl⟩ := List.mem_map.mp hs
    obtain ⟨c, hc, heq⟩ := exists_case_of_mem_typedCases hentry
    exact heq ▸ hbody c hc
  · obtain ⟨c, hc, heq⟩ :=
      exists_case_of_mem_defaultBodies (List.mem_of_mem_head? (Option.mem_toList.mp hs))
    exact heq ▸ hbody c hc

/-- Every node of a statement has the line of one of its tokens. -/
theorem DerivesStatement.allLines {inFunction : Bool} {level : Nat} {tokens : List Token}
    {s : Statement} (h : DerivesStatement inFunction level tokens s)
    (hP : ∀ token ∈ tokens, P token.line) : s.AllLines P := by
  -- As for expressions: the line stored is that of the first token, or of the expression itself.
  induction h with
  | block _ _ _ _ ih | function _ _ _ _ _ _ _ _ _ _ _ _ _ ih =>
    have hbody := allLines_parts ih fun token htoken => hP token (by simp_all)
    exact .intro (hP _ List.mem_cons_self) (List.forall_mem_nil _) hbody
  | declare | ret =>
    exact .intro (hP _ List.mem_cons_self) (List.forall_mem_nil _) (List.forall_mem_nil _)
  | declareWith _ _ _ _ hvalue _ | retWith _ _ hvalue _ =>
    have hvalue := hvalue.allLines fun token htoken => hP token (by simp [htoken])
    exact .intro (hP _ List.mem_cons_self) (List.forall_mem_singleton.mpr hvalue)
      (List.forall_mem_nil _)
  | expression _ hvalue =>
    have hvalue := hvalue.allLines fun token htoken =>
      hP token (List.mem_append_left [_] htoken)
    exact .intro (hP _ List.mem_cons_self) (List.forall_mem_singleton.mpr hvalue)
      (List.forall_mem_nil _)
  | branch _ _ _ htest _ _ ih | loop _ _ _ htest _ _ ih =>
    have htest := htest.allLines fun token htoken => hP token (by simp [htoken])
    have hpart := ih fun token htoken => hP token (by simp [htoken])
    exact .intro (hP _ List.mem_cons_self) (List.forall_mem_singleton.mpr htest)
      (List.forall_mem_singleton.mpr hpart)
  | branchElse _ _ _ htest _ _ _ _ _ ihyes ihno =>
    have htest := htest.allLines fun token htoken => hP token (by simp [htoken])
    have hyes := ihyes fun token htoken => hP token (by simp [htoken])
    have hno := ihno fun token htoken => hP token (by simp [htoken])
    exact .intro (hP _ List.mem_cons_self) (List.forall_mem_singleton.mpr htest)
      (List.forall_mem_cons.mpr ⟨hyes, List.forall_mem_singleton.mpr hno⟩)
  | select _ _ _ hsubject _ _ _ _ _ _ _ ih =>
    have hsubject := hsubject.allLines fun token htoken => hP token (by simp [htoken])
    have hcases := allLines_cases ih fun token htoken => hP token (by simp_all)
    exact .intro (hP _ List.mem_cons_self) (List.forall_mem_singleton.mpr hsubject) hcases

end Grammar

/-- Every node of a program has the line of one of its tokens. -/
private theorem allLines_of_parse {source : String} {program : Program}
    (hparse : parse source = .ok program) :
    ∃ tokens, readTokens source = .ok tokens ∧
      ∀ s ∈ program, s.AllLines fun line => ∃ token ∈ tokens, token.line = line := by
  obtain ⟨tokens, rest, htokens, hread⟩ := parse_ok_iff.mp hparse
  obtain ⟨parts, hparts, rfl, rfl⟩ := Grammar.program_sound hread
  refine ⟨_, htokens, Grammar.allLines_parts (fun part hpart hlines => ?_) fun token htoken => ?_⟩
  · exact (hparts part hpart).allLines hlines
  · exact ⟨token, htoken, rfl⟩

/-! ## Lines in runs -/

/-- A run beside itself: all trees, in the program and in the declared functions, have only lines
    with a property. The host provides no functions but the standard ones. -/
def Correspondence.onLines (P : Nat → Prop) : Correspondence where
  lines line line' := line = line' ∧ P line
  exprs _ _ e e' := e = e' ∧ e.AllLines P
  statements _ _ s s' := s = s' ∧ s.AllLines P
  functions u u' := u = u' ∧ ∀ s ∈ u.body, s.AllLines P
  natives native := ∀ handle, native ≠ .host handle

/-- Evaluation takes lines from trees only, also where a function is called that was declared
    before. -/
theorem simulation_onLines (P : Nat → Prop) (ctx : Context) :
    Simulation (.onLines P) ctx ctx where
  limits := rfl
  exprs := by
    rintro calls depth e _ ⟨rfl, ⟨hline, hparts⟩⟩
    exact .of_parts ⟨rfl, hline⟩ fun part hpart => ⟨rfl, hparts part hpart⟩
  statements := by
    rintro calls depth s _ ⟨rfl, ⟨hline, hexprs, hparts⟩⟩
    have hpart (t : Statement) (ht : t ∈ s.parts) : t = t ∧ t.AllLines P := ⟨rfl, hparts t ht⟩
    refine .of_parts ⟨rfl, hline⟩ (fun e he => ⟨rfl, hexprs e he⟩) hpart hpart ?_
    rintro name params returnKind body line rfl
    exact ⟨rfl, hparts⟩
  bodies := by
    -- A function that is called was declared by the program, however it has got there.
    rintro calls depth e e' u _ - - ⟨rfl, hu⟩
    exact List.forall₂_same.mpr fun s hs => ⟨rfl, hu s hs⟩
  host hnative _ _ := absurd rfl (hnative _)

/-- An error of a program that runs in a session with only the standard functions has a line of the
    program. -/
private theorem line_of_execute {P : Nat → Prop} {ctx : Context} {fuel : Nat} {program : Program}
    (hprogram : ∀ s ∈ program, s.AllLines P) {e : RuntimeError} {s : Session}
    (hrun : execute ctx fuel program .standard = some (.error e, s)) : P e.line := by
  have hends := (simulation_onLines P ctx).execute fuel
    (List.forall₂_same.mpr fun s hs => ⟨rfl, hprogram s hs⟩) (.standard nofun nofun)
  -- The run corresponds to itself, and so does its error.
  rw [hrun] at hends
  cases hends with
  | some houtcomes => cases houtcomes.1 with
    | error herrors => exact herrors.line.2

/-! ## Lines of source texts -/

/-- A token is on a line of the source text. -/
private theorem line_of_mem_tokens {source : String} {tokens : List Token}
    (h : readTokens source = .ok tokens) {token : Token} (htoken : token ∈ tokens) :
    1 ≤ token.line ∧ token.line ≤ (Text.lines source.toList).length := by
  have hplaced := placed_of_readTokens h htoken
  obtain ⟨front, back, htext, hline, -⟩ := hplaced.startOf
  -- The token is not empty, so that the text behind `front` is on one of the lines.
  have hcount := Text.count_lt_length_lines front
    (List.append_ne_nil_of_left_ne_nil hplaced.lexeme_ne_nil back)
  rw [← htext] at hcount
  have htokenline : token.line = 1 + front.count '\n' := hline
  omega

/-- An error while a source text runs is one of the program that it writes. -/
private theorem run_eq_runtime_error {ctx : Context} {fuel : Nat} {source : String} {s s' : Session}
    {e : RuntimeError} : run ctx fuel source s = some (.error (.runtime e), s') ↔
      ∃ program, parse source = .ok program ∧ execute ctx fuel program s = some (.error e, s') := by
  unfold run
  cases parse source with
  | error e' => simp
  | ok program =>
    simp only [Except.ok.injEq, exists_eq_left']
    cases execute ctx fuel program s with
    | none => simp
    | some o =>
      obtain ⟨result, s₁⟩ := o
      cases result <;> simp [Except.mapError]

/-- If a source text that is run in a session with only the standard functions fails while it runs,
    then the error names the line of one of its tokens, so that it is on a line of the text. -/
theorem runtime_error_on_token_line (ctx : Context) (fuel : Nat) (source : String)
    (e : RuntimeError) (s : Session)
    (hrun : run ctx fuel source .standard = some (.error (.runtime e), s)) :
    (∃ tokens, readTokens source = .ok tokens ∧ ∃ token ∈ tokens, token.line = e.line) ∧
      1 ≤ e.line ∧ e.line ≤ (Text.lines source.toList).length := by
  obtain ⟨program, hparse, hexecute⟩ := run_eq_runtime_error.mp hrun
  obtain ⟨tokens, htokens, hprogram⟩ := allLines_of_parse hparse
  obtain ⟨token, htoken, hline⟩ := line_of_execute hprogram hexecute
  refine ⟨⟨tokens, htokens, token, htoken, hline⟩, ?_⟩
  rw [← hline]
  exact line_of_mem_tokens htokens htoken

/-- A division by zero in a function that is called from a later line. -/
theorem runtime_error_on_token_line_in_call :
    let ctx : Context := ⟨{}, fun _ _ line => .error ⟨.assertionFailed, line⟩⟩
    let source := "fun f(): int \x7b\n  return 1 / 0;\n\x7d\nf();"
    ∃ s, run ctx 9 source .standard = some (.error (.runtime ⟨.divisionByZero, 2⟩), s) ∧
      ∃ tokens, readTokens source = .ok tokens ∧ ∃ token ∈ tokens, token.line = 2 := by
  intro ctx source
  have htokens : readTokens source = .ok
      [⟨.keyword .kwFun, "fun", 1, 1⟩, ⟨.identifier "f", "f", 1, 5⟩,
        ⟨.symbol .leftParen, "(", 1, 6⟩, ⟨.symbol .rightParen, ")", 1, 7⟩,
        ⟨.symbol .colon, ":", 1, 8⟩, ⟨.literal (.type .integer), "int", 1, 10⟩,
        ⟨.symbol .leftBrace, "\x7b", 1, 14⟩, ⟨.keyword .kwReturn, "return", 2, 3⟩,
        ⟨.literal (.integer 1), "1", 2, 10⟩, ⟨.symbol .slash, "/", 2, 12⟩,
        ⟨.literal (.integer 0), "0", 2, 14⟩, ⟨.symbol .semicolon, ";", 2, 15⟩,
        ⟨.symbol .rightBrace, "\x7d", 3, 1⟩, ⟨.identifier "f", "f", 4, 1⟩,
        ⟨.symbol .leftParen, "(", 4, 2⟩, ⟨.symbol .rightParen, ")", 4, 3⟩,
        ⟨.symbol .semicolon, ";", 4, 4⟩] := by decide +kernel
  have hparse := parse_ok_iff.mpr ⟨_, _, htokens, rfl⟩
  have hrun : run ctx 9 source .standard = some (.error (.runtime ⟨.divisionByZero, 2⟩), _) :=
    run_eq_runtime_error.mpr ⟨_, hparse, rfl⟩
  exact ⟨_, hrun, (runtime_error_on_token_line ctx 9 source _ _ hrun).1⟩

end Script
