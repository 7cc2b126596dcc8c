import Script.Proofs.RunLimits
import Script.Proofs.RunSimulation
import Script.Proofs.TokenRelabeling

/-!
# Layout does not matter

What a source text means is decided by the kinds of its tokens. Blanks, comments and line breaks
between them move the tokens, and so the lines in the tree and in errors, but nothing else: two
texts with the same kinds of tokens are both programs or both none, and the programs do the same.

The two programs are the same but for their lines, and so are the functions that they declare.
`Correspondence.upToLines` says this of all that can occur in a run, and that it is a `Simulation`
says that no rule of evaluation looks at a line.

## Key results

- `Grammar.program_of_same_kinds`: the same tree up to its lines, or the same fault
- `simulation_upToLines`: trees that are the same up to their lines run alike
- `layout_unobservable`: texts with the same kinds of tokens mean the same
-/

namespace Script

/-! ## Reading -/

/-- The expression with all lines in it forgotten. -/
def Expr.withoutLines (e : Expr) : Expr := e.mapLines fun _ => 0

/-- The statement with all lines in it forgotten. -/
def Statement.withoutLines (s : Statement) : Statement := s.mapLines fun _ => 0

/-- A token of a kind, with nothing else known of it. -/
def Token.bare (kind : TokenKind) : Token := ⟨kind, "", 0, 0⟩

/-- Leaving out the lexemes and positions of tokens is reading them with all lines zero. -/
private theorem Token.relabels_bare : Token.Relabels (fun _ => 0) (fun t => bare t.kind) where
  kind _ := rfl
  line _ := rfl

/-- From tokens of the same kinds, the same tree is read up to its lines, or there is the same fault
    up to the text of the token that was found. -/
theorem Grammar.program_of_same_kinds {ts₁ ts₂ : List Token}
    (hkinds : ts₁.map Token.kind = ts₂.map Token.kind) :
    (∃ e₁ e₂ rest₁ rest₂, program ts₁ = .error e₁ rest₁ ∧ program ts₂ = .error e₂ rest₂ ∧
        e₁.fault.withoutFound = e₂.fault.withoutFound) ∨
      ∃ p₁ p₂ rest₁ rest₂, program ts₁ = .ok p₁ rest₁ ∧ program ts₂ = .ok p₂ rest₂ ∧
        p₁.map Statement.withoutLines = p₂.map Statement.withoutLines := by
  -- Both lists of tokens become the same one when all but the kinds is forgotten.
  have hbare : ts₁.map (fun t => Token.bare t.kind) = ts₂.map (fun t => Token.bare t.kind) := by
    have hmap := congrArg (List.map Token.bare) hkinds
    rwa [List.map_map, List.map_map] at hmap
  have h₁ := follows_program Token.relabels_bare ts₁
  have h₂ := follows_program Token.relabels_bare ts₂
  rw [← hbare] at h₂
  cases hread₁ : program ts₁ with
  | ok p₁ rest₁ =>
    cases hread₂ : program ts₂ with
    | ok p₂ rest₂ =>
      rw [hread₁] at h₁
      rw [hread₂] at h₂
      have hsame := h₁.symm.trans h₂
      rw [EStateM.Result.ok.injEq] at hsame
      exact .inr ⟨p₁, p₂, rest₁, rest₂, rfl, rfl, hsame.1⟩
    | error e₂ rest₂ =>
      rw [hread₁] at h₁
      rw [hread₂] at h₂
      obtain ⟨e, herror, -⟩ := h₂
      cases h₁.symm.trans herror
  | error e₁ rest₁ =>
    rw [hread₁] at h₁
    obtain ⟨e, herror, hfault₁⟩ := h₁
    cases hread₂ : program ts₂ with
    | ok p₂ rest₂ =>
      rw [hread₂] at h₂
      cases herror.symm.trans h₂
    | error e₂ rest₂ =>
      rw [hread₂] at h₂
      obtain ⟨e', herror', hfault₂⟩ := h₂
      have hsame := herror.symm.trans herror'
      rw [EStateM.Result.error.injEq] at hsame
      obtain ⟨rfl, -⟩ := hsame
      exact .inl ⟨e₁, e₂, rest₁, rest₂, rfl, rfl, hfault₁.symm.trans hfault₂⟩

/-! ## Running -/

/-- Lists with the same image correspond element by element. -/
private theorem forall₂_of_map_eq {α β : Type} {f : α → β} {xs ys : List α}
    (h : xs.map f = ys.map f) : List.Forall₂ (fun x y => f x = f y) xs ys := by
  rw [← List.forall₂_eq_eq_eq, List.forall₂_map_left_iff, List.forall₂_map_right_iff] at h
  exact h

/-- Optional values with the same image are both missing or both there with that image. -/
private theorem rel_of_map_eq {α β : Type} {f : α → β} {x y : Option α} (h : x.map f = y.map f) :
    Option.Rel (fun x y => f x = f y) x y := by
  cases x with
  | none =>
    rw [Option.map_eq_none_iff.mp h.symm]
    exact .none
  | some a =>
    obtain ⟨b, rfl, hb⟩ := Option.map_eq_some_iff.mp h.symm
    exact .some hb.symm

/-- Trees and functions that are the same up to their lines. The host provides no functions but the
    standard ones. -/
def Correspondence.upToLines : Correspondence where
  lines _ _ := True
  exprs _ _ e e' := e.withoutLines = e'.withoutLines
  statements _ _ s s' := s.withoutLines = s'.withoutLines
  functions u u' := u.body.map Statement.withoutLines = u'.body.map Statement.withoutLines
  natives native := ∀ handle, native ≠ .host handle

/-- Expressions that are equal up to lines have the same form. -/
private theorem Expr.sameForm_of_withoutLines {e e' : Expr} (h : e.withoutLines = e'.withoutLines) :
    e.SameForm (fun _ _ => True) (fun e e' => e.withoutLines = e'.withoutLines) e' := by
  unfold withoutLines at h
  -- Trees with different constructors still differ without their lines.
  cases e <;> cases e' <;>
    simp only [mapLines, mapLinesAll_eq_map, reduceCtorEq, literal.injEq, identifier.injEq,
      unary.injEq, binary.injEq, assign.injEq, call.injEq, and_true] at h
  case literal => subst h; exact .literal _ trivial
  case identifier => subst h; exact .identifier _ trivial
  case unary =>
    obtain ⟨rfl, hoperand⟩ := h
    exact .unary _ hoperand trivial
  case binary =>
    obtain ⟨hleft, rfl, hright⟩ := h
    exact .binary _ hleft hright trivial
  case assign =>
    obtain ⟨rfl, hvalue⟩ := h
    exact .assign _ hvalue trivial
  case call =>
    obtain ⟨rfl, harguments⟩ := h
    exact .call _ (forall₂_of_map_eq harguments) trivial

/-- Statements that are equal up to lines have the same form. -/
private theorem Statement.sameForm_of_withoutLines {s s' : Statement}
    (h : s.withoutLines = s'.withoutLines) :
    s.SameForm (fun _ _ => True) (fun e e' => e.withoutLines = e'.withoutLines)
      (fun s s' => s.withoutLines = s'.withoutLines)
      (fun s s' => s.withoutLines = s'.withoutLines)
      (fun u u' => u.body.map withoutLines = u'.body.map withoutLines) s' := by
  unfold withoutLines at h
  -- As for expressions; the parts of both statements are equal without their lines.
  cases s <;> cases s' <;>
    simp only [mapLines, mapLinesAll_eq_map, mapLinesOption_eq_map, mapLinesCases_eq_map,
      reduceCtorEq, declare.injEq, block.injEq, branch.injEq, loop.injEq, select.injEq,
      function.injEq, ret.injEq, expression.injEq, and_true] at h
  case declare =>
    obtain ⟨rfl, hinit⟩ := h
    exact .declare _ (rel_of_map_eq hinit) trivial
  case block => exact .block (forall₂_of_map_eq h)
  case branch =>
    obtain ⟨hcondition, hyes, hno⟩ := h
    exact .branch hcondition hyes (rel_of_map_eq hno)
  case loop =>
    obtain ⟨hcondition, hbody⟩ := h
    exact .loop hcondition hbody
  case select =>
    obtain ⟨hsubject, hcases, hdefault⟩ := h
    refine .select hsubject ((forall₂_of_map_eq hcases).imp ?_) (rel_of_map_eq hdefault)
    intro c c' hc
    exact Prod.mk.inj hc
  case function =>
    obtain ⟨rfl, rfl, rfl, hbody⟩ := h
    exact .function _ _ _ hbody trivial
  case ret => exact .ret (rel_of_map_eq h)
  case expression => exact .expression h

/-- Trees that are the same up to their lines run alike. -/
theorem simulation_upToLines (ctx : Context) : Simulation .upToLines ctx ctx where
  limits := rfl
  exprs := Expr.sameForm_of_withoutLines
  statements := Statement.sameForm_of_withoutLines
  bodies _ _ hu := forall₂_of_map_eq hu
  host hnative _ _ := absurd rfl (hnative _)

/-- What a value shows of itself: its kind and its text. -/
def Value.shown (v : Value) : Kind × String := (v.kind, v.text)

/-- Values that correspond are shown alike. -/
private theorem Value.Corresponds.shown_eq {functions : UserFunction → UserFunction → Prop}
    {natives : Native → Prop} {v v' : Value} (h : Corresponds functions natives v v') :
    v.shown = v'.shown := by
  rw [shown, shown, h.kind_eq, h.text_eq]

/-- What can be seen of how a program finishes, but for the line of an error: the kind and text of
    the value or the fault, the text written, and the kind and text of what each name means. -/
structure LooksAlike (result₁ result₂ : Except RuntimeError Value) (s₁ s₂ : Session) : Prop where
  value : (result₁.map Value.shown).mapError RuntimeError.fault =
    (result₂.map Value.shown).mapError RuntimeError.fault
  output : s₁.output = s₂.output
  bound (name : String) : (s₁.env.get? name).map Value.shown = (s₂.env.get? name).map Value.shown

/-- What can be seen of how a program finishes can also be seen with other lines. -/
private theorem finishes_upToLines {ctx : Context} {p₁ p₂ : Program}
    (hp : p₁.map Statement.withoutLines = p₂.map Statement.withoutLines)
    {r₁ : Except RuntimeError Value} {s₁ : Session} (hrun : Finishes ctx p₁ .standard r₁ s₁) :
    ∃ r₂ s₂, Finishes ctx p₂ .standard r₂ s₂ ∧ LooksAlike r₁ r₂ s₁ s₂ := by
  obtain ⟨fuel, hrun⟩ := hrun
  have hends := (simulation_upToLines ctx).execute fuel (forall₂_of_map_eq hp)
    (.standard nofun nofun)
  rw [hrun] at hends
  generalize hrun₂ : execute ctx fuel p₂ .standard = o at hends
  -- The second run ends on the same fuel, for it takes the same steps.
  cases hends with
  | @some _ o houtcomes =>
    obtain ⟨r₂, s₂⟩ := o
    obtain ⟨hresults, henv, houtput⟩ := houtcomes
    refine ⟨r₂, s₂, ⟨fuel, hrun₂⟩, ?_, houtput, fun name => ?_⟩
    · generalize r₁ = result₁ at hresults
      cases hresults with
      | ok hv => exact congrArg Except.ok hv.shown_eq
      | error he => exact congrArg Except.error he.fault
    · have hvalue := henv.get? name
      generalize s₁.env.get? name = o₁, s₂.env.get? name = o₂ at hvalue
      cases hvalue with
      | none => rfl
      | some hv => exact congrArg some hv.shown_eq

/-- If two source texts have the same kinds of tokens, then neither is a program and both have the
    same fault, or both are programs, the same up to their lines. Running them in sessions with only
    the standard functions, both finish or both run forever, and if they finish, then with values of
    the same kind and text or with errors that are the same up to their lines, with the same text
    written, and with the same names bound to values of the same kind and text. -/
theorem layout_unobservable (ctx : Context) (source₁ source₂ : String) (ts₁ ts₂ : List Token)
    (h₁ : readTokens source₁ = .ok ts₁) (h₂ : readTokens source₂ = .ok ts₂)
    (hkinds : ts₁.map Token.kind = ts₂.map Token.kind) :
    (∃ e₁ e₂, parse source₁ = .error (.parse e₁) ∧ parse source₂ = .error (.parse e₂) ∧
        e₁.fault.withoutFound = e₂.fault.withoutFound) ∨
      ∃ p₁ p₂, parse source₁ = .ok p₁ ∧ parse source₂ = .ok p₂ ∧
        p₁.map Statement.withoutLines = p₂.map Statement.withoutLines ∧
        ((∃ r s, Finishes ctx p₁ .standard r s) ↔ ∃ r s, Finishes ctx p₂ .standard r s) ∧
        ∀ r₁ s₁ r₂ s₂, Finishes ctx p₁ .standard r₁ s₁ → Finishes ctx p₂ .standard r₂ s₂ →
          LooksAlike r₁ r₂ s₁ s₂ := by
  rcases Grammar.program_of_same_kinds hkinds with
    ⟨e₁, e₂, _, _, hread₁, hread₂, hfault⟩ | ⟨p₁, p₂, _, _, hread₁, hread₂, hp⟩
  · refine .inl ⟨e₁.inSource source₁, e₂.inSource source₂, ?_, ?_, ?_⟩
    · rw [parse, h₁]
      simp only [hread₁]
    · rw [parse, h₂]
      simp only [hread₂]
    · rw [ParseError.fault_inSource, ParseError.fault_inSource, hfault]
  · have hparse₁ := parse_ok_iff.mpr ⟨ts₁, _, h₁, hread₁⟩
    have hparse₂ := parse_ok_iff.mpr ⟨ts₂, _, h₂, hread₂⟩
    refine .inr ⟨p₁, p₂, hparse₁, hparse₂, hp, ⟨?_, ?_⟩, ?_⟩
    · intro ⟨r₁, s₁, hrun₁⟩
      obtain ⟨r₂, s₂, hrun₂, -⟩ := finishes_upToLines hp hrun₁
      exact ⟨r₂, s₂, hrun₂⟩
    · intro ⟨r₂, s₂, hrun₂⟩
      obtain ⟨r₁, s₁, hrun₁, -⟩ := finishes_upToLines hp.symm hrun₂
      exact ⟨r₁, s₁, hrun₁⟩
    · intro r₁ s₁ r₂ s₂ hrun₁ hrun₂
      obtain ⟨r, s, hrun, halike⟩ := finishes_upToLines hp hrun₁
      -- There is only one way in which the second program finishes.
      obtain ⟨rfl, rfl⟩ := hrun.unique hrun₂
      exact halike

/-- A function that fails when it is called, on one line and on three. -/
theorem layout_unobservable_failing_call :
    let ctx : Context := ⟨{}, fun _ _ line => .error ⟨.assertionFailed, line⟩⟩
    let program (inside call : Nat) : Program :=
      [.function "f" [] .integer [.expression (.identifier "y" inside) inside] 1,
        .expression (.call "f" [] call) call]
    parse "fun f(): int \x7b y; \x7d f();" = .ok (program 1 1) ∧
      parse "fun f(): int \x7b // fails\ny; \x7d\nf();" = .ok (program 2 3) ∧
      ∃ s₁ s₂, Finishes ctx (program 1 1) .standard (.error ⟨.unboundIdentifier "y", 1⟩) s₁ ∧
        Finishes ctx (program 2 3) .standard (.error ⟨.unboundIdentifier "y", 2⟩) s₂ ∧
        LooksAlike (.error ⟨.unboundIdentifier "y", 1⟩) (.error ⟨.unboundIdentifier "y", 2⟩)
          s₁ s₂ := by
  intro ctx program
  have htokens₁ : readTokens "fun f(): int \x7b y; \x7d f();" = .ok
      [⟨.keyword .kwFun, "fun", 1, 1⟩, ⟨.identifier "f", "f", 1, 5⟩,
        ⟨.symbol .leftParen, "(", 1, 6⟩, ⟨.symbol .rightParen, ")", 1, 7⟩,
        ⟨.symbol .colon, ":", 1, 8⟩, ⟨.literal (.type .integer), "int", 1, 10⟩,
        ⟨.symbol .leftBrace, "\x7b", 1, 14⟩, ⟨.identifier "y", "y", 1, 16⟩,
        ⟨.symbol .semicolon, ";", 1, 17⟩, ⟨.symbol .rightBrace, "\x7d", 1, 19⟩,
        ⟨.identifier "f", "f", 1, 21⟩, ⟨.symbol .leftParen, "(", 1, 22⟩,
        ⟨.symbol .rightParen, ")", 1, 23⟩, ⟨.symbol .semicolon, ";", 1, 24⟩] := by decide +kernel
  have htokens₂ : readTokens "fun f(): int \x7b // fails\ny; \x7d\nf();" = .ok
      [⟨.keyword .kwFun, "fun", 1, 1⟩, ⟨.identifier "f", "f", 1, 5⟩,
        ⟨.symbol .leftParen, "(", 1, 6⟩, ⟨.symbol .rightParen, ")", 1, 7⟩,
        ⟨.symbol .colon, ":", 1, 8⟩, ⟨.literal (.type .integer), "int", 1, 10⟩,
        ⟨.symbol .leftBrace, "\x7b", 1, 14⟩, ⟨.identifier "y", "y", 2, 1⟩,
        ⟨.symbol .semicolon, ";", 2, 2⟩, ⟨.symbol .rightBrace, "\x7d", 2, 4⟩,
        ⟨.identifier "f", "f", 3, 1⟩, ⟨.symbol .leftParen, "(", 3, 2⟩,
        ⟨.symbol .rightParen, ")", 3, 3⟩, ⟨.symbol .semicolon, ";", 3, 4⟩] := by decide +kernel
  have hparse₁ : parse "fun f(): int \x7b y; \x7d f();" = .ok (program 1 1) :=
    parse_ok_iff.mpr ⟨_, _, htokens₁, rfl⟩
  have hparse₂ : parse "fun f(): int \x7b // fails\ny; \x7d\nf();" = .ok (program 2 3) :=
    parse_ok_iff.mpr ⟨_, _, htokens₂, rfl⟩
  have hrun₁ : Finishes ctx (program 1 1) .standard (.error ⟨.unboundIdentifier "y", 1⟩) _ :=
    ⟨9, rfl⟩
  have hrun₂ : Finishes ctx (program 2 3) .standard (.error ⟨.unboundIdentifier "y", 2⟩) _ :=
    ⟨9, rfl⟩
  rcases layout_unobservable ctx _ _ _ _ htokens₁ htokens₂ rfl with
    ⟨_, _, hfail, -⟩ | ⟨p₁, p₂, h₁, h₂, -, -, hsame⟩
  · rw [hparse₁] at hfail
    cases hfail
  · rw [hparse₁] at h₁
    rw [hparse₂] at h₂
    cases h₁
    cases h₂
    exact ⟨hparse₁, hparse₂, _, _, hrun₁, hrun₂, hsame _ _ _ _ hrun₁ hrun₂⟩

end Script
