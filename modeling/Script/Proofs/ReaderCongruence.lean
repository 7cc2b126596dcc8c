import Mathlib.Data.List.Forall2
import Script.Proofs.ParserSteps
import Script.Proofs.TreeLines

/-!
# Readings side by side

To compare two readings, or to follow what one reading does, it is enough to look at the ways in
which readers are built. A reader looks at the kinds of tokens only: their lines are copied into the
tree and their texts and columns into errors, and nothing is decided by them. So from tokens of the
same kinds the same is read up to its lines, or there is the same fault about tokens that stand for
each other.

`Parser.Mirrors` says this of two readers, for any relation of tokens that keeps their kinds. It
also counts: how many tokens a success consumes, and on how many tokens a reader may stop for
nesting too deeply. The second reader may have room for more levels, and then nothing is said where
the first one stops for that reason. What is known about one reading is the case of a reading beside
itself.

## Key results

- `Parser.Comparison`: which tokens, lines and levels are compared
- `Parser.Mirrors.bind`, `Parser.Tries.bind`: one reader after the other
- `Parser.Mirrors.required`, `Parser.Mirrors.listUntil`: tokens that have to be there, and lists
-/

namespace Script

/-- Lists are related entry by entry through a function if the second one is made by it. -/
theorem forall₂_eq_map_iff {α β : Type} {f : α → β} {xs : List α} {ys : List β} :
    List.Forall₂ (fun x y => y = f x) xs ys ↔ ys = xs.map f := by
  constructor
  · intro h
    induction h with
    | nil => rfl
    | cons hx _ ih => rw [hx, ih, List.map_cons]
  · rintro rfl
    induction xs with
    | nil => exact .nil
    | cons x xs ih => exact .cons rfl ih

namespace Parser

/-! ## What is compared -/

/-- What is compared of two readings: which tokens of the second stand for those of the first, what
    becomes of lines, and whether the second has room for more levels of nesting. -/
structure Comparison where
  token : Token → Token → Prop
  lineOf : Nat → Nat
  roomier : Prop
  kind {t t' : Token} : token t t' → t'.kind = t.kind
  line {t t' : Token} : token t t' → t'.line = lineOf t.line

namespace Comparison

/-- A reading beside one of the same tokens, maybe with more room. -/
def itself (roomier : Prop) : Comparison where
  token := Eq
  lineOf := id
  roomier := roomier
  kind h := by rw [h]
  line h := by rw [h, id]

variable (c : Comparison)

/-- The expressions that are read, the second one with its lines changed. -/
def expr (e e' : Expr) : Prop :=
  e' = e.mapLines c.lineOf

/-- The statements that are read, the second one with its lines changed. -/
def statement (s s' : Statement) : Prop :=
  s' = s.mapLines c.lineOf

/-- The cases of a match statement that are read, with the default case. -/
def cases (read read' : List (Kind × Statement) × Option Statement) : Prop :=
  read' = read.map (Statement.mapLinesCases c.lineOf) (Statement.mapLinesOption c.lineOf)

/-- The levels that both readings may still open. -/
def Room (room room' : Nat) : Prop :=
  room = room' ∨ c.roomier ∧ room ≤ room'

variable {c} {room room' : Nat}

/-- Where the first reading may open no level, the second one may open none either, or it has more
    room. -/
theorem Room.of_zero (h : c.Room 0 room') : room' = 0 ∨ c.roomier := by
  rcases h with rfl | h
  · exact .inl rfl
  · exact .inr h.1

/-- Inside a level that is opened, both readings have one level less. -/
theorem Room.of_succ (h : c.Room (room + 1) room') :
    ∃ less, room' = less + 1 ∧ c.Room room less := by
  rcases h with rfl | ⟨hroomier, hle⟩
  · exact ⟨room, rfl, .inl rfl⟩
  · exact ⟨room' - 1, by omega, .inr ⟨hroomier, by omega⟩⟩

/-- Related expressions are those with their lines changed. -/
theorem eq_mapLinesAll_expr {exprs exprs' : List Expr} (h : List.Forall₂ c.expr exprs exprs') :
    exprs' = Expr.mapLinesAll c.lineOf exprs := by
  rw [Expr.mapLinesAll_eq_map]
  exact forall₂_eq_map_iff.mp h

/-- Related statements are those with their lines changed. -/
theorem eq_mapLinesAll_statement {statements statements' : List Statement}
    (h : List.Forall₂ c.statement statements statements') :
    statements' = Statement.mapLinesAll c.lineOf statements := by
  rw [Statement.mapLinesAll_eq_map]
  exact forall₂_eq_map_iff.mp h

/-- Beside itself, an expression is read as the same one. -/
theorem eq_of_expr {roomier : Prop} (e e' : Expr) (h : (itself roomier).expr e e') : e = e' := by
  rw [h, itself, Expr.mapLines_id]

/-- And so is a statement. -/
theorem eq_of_statement {roomier : Prop} (s s' : Statement) (h : (itself roomier).statement s s') :
    s = s' := by
  rw [h, itself, Statement.mapLines_id]

/-- A token that stands for another one has its kind and the changed line. -/
theorem exists_eq {t t' : Token} (h : c.token t t') :
    ∃ lexeme column, t' = ⟨t.kind, lexeme, c.lineOf t.line, column⟩ :=
  ⟨t'.lexeme, t'.column, by rw [← c.kind h, ← c.line h]⟩

end Comparison

/-- The same fault, about tokens that stand for each other or about the end of the tokens. The first
    reading stopped in front of the tokens `rest`. -/
inductive SameFault (c : Comparison) (rest : List Token) : ParseError → ParseError → Prop where
  | unexpected {t t' : Token} (expected : Expectation) : c.token t t' →
      SameFault c rest ⟨.unexpectedToken expected t.describe, t.position⟩
        ⟨.unexpectedToken expected t'.describe, t'.position⟩
  | ended (expected : Expectation) :
      SameFault c rest ⟨.unexpectedEnd expected, .nowhere⟩ ⟨.unexpectedEnd expected, .nowhere⟩
  | duplicateDefault {t t' : Token} : c.token t t' → t.kind = .symbol .underscore →
      SameFault c rest ⟨.duplicateDefaultCase, t.position⟩ ⟨.duplicateDefaultCase, t'.position⟩
  | nestedFunction {t t' : Token} (name : String) : c.token t t' → t.kind = .keyword .kwFun →
      SameFault c rest ⟨.nestedFunction name, t.position⟩ ⟨.nestedFunction name, t'.position⟩
  | duplicateParameter {t t' : Token} (function name : String) :
      c.token t t' → t.kind = .keyword .kwFun →
      SameFault c rest ⟨.duplicateParameter function name, t.position⟩
        ⟨.duplicateParameter function name, t'.position⟩
  /-- The next token would open one level too many. -/
  | tooDeep {t t' : Token} : c.token t t' → rest.head? = some t →
      SameFault c rest ⟨.nestingTooDeep, t.position⟩ ⟨.nestingTooDeep, t'.position⟩
  /-- There is no next token, and no level for one. -/
  | tooDeepAtEnd : rest = [] →
      SameFault c rest ⟨.nestingTooDeep, .nowhere⟩ ⟨.nestingTooDeep, .nowhere⟩

variable {α β γ δ : Type} {c : Comparison} {related : α → β → Prop} {related' : γ → δ → Prop}
  {least least' first enough enough' : Nat}

/-- Two readings have ended alike, the first one of which started on `tokens`. A success has
    consumed at least `least` of them, and only where there are at least `enough` of them can too
    many levels have been opened. -/
inductive EndsAlike (c : Comparison) (related : α → β → Prop) (least enough : Nat)
    (tokens : List Token) : EStateM.Result ParseError (List Token) α →
      EStateM.Result ParseError (List Token) β → Prop where
  | ok {a : α} {b : β} {rest rest' : List Token} : related a b → rest <:+ tokens →
      rest.length + least ≤ tokens.length → List.Forall₂ c.token rest rest' →
      EndsAlike c related least enough tokens (.ok a rest) (.ok b rest')
  | error {e e' : ParseError} {rest rest' : List Token} : SameFault c rest e e' →
      rest <:+ tokens → List.Forall₂ c.token rest rest' →
      (e.fault = .nestingTooDeep → enough ≤ tokens.length) →
      EndsAlike c related least enough tokens (.error e rest) (.error e' rest')
  /-- With more room, the second reading may have gone on where the first one has stopped. -/
  | stopped {e : ParseError} {rest : List Token}
      {result : EStateM.Result ParseError (List Token) β} :
      c.roomier → e.fault = .nestingTooDeep → rest <:+ tokens → enough ≤ tokens.length →
      EndsAlike c related least enough tokens (.error e rest) result

/-- From tokens that stand for each other, the two readers read what is related and leave tokens
    that stand for each other, or they fail for the same reason. -/
def Mirrors (c : Comparison) (related : α → β → Prop) (least enough : Nat) (p : Parser α)
    (q : Parser β) : Prop :=
  ∀ tokens tokens', List.Forall₂ c.token tokens tokens' →
    EndsAlike c related least enough tokens (p tokens) (q tokens')

/-- The same for readers of something that may be missing: they consume no token, or find what they
    look for and consume at least one. -/
def Tries (c : Comparison) (related : α → β → Prop) (p : Parser (Option α))
    (q : Parser (Option β)) : Prop :=
  ∀ tokens tokens', List.Forall₂ c.token tokens tokens' →
    (p tokens = .ok none tokens ∧ q tokens' = .ok none tokens') ∨
      ∃ a b rest rest', p tokens = .ok (some a) rest ∧ q tokens' = .ok (some b) rest' ∧
        related a b ∧ rest <:+ tokens ∧ rest.length < tokens.length ∧
        List.Forall₂ c.token rest rest'

/-! ## Building readers -/

/-- What is read behind a first part is read from fewer tokens, and what that part has consumed
    counts for the whole. -/
theorem EndsAlike.behind {tokens mid : List Token}
    {result : EStateM.Result ParseError (List Token) α}
    {result' : EStateM.Result ParseError (List Token) β}
    (h : EndsAlike c related (least - first) (enough - first) mid result result')
    (hmid : mid <:+ tokens) (hfirst : mid.length + first ≤ tokens.length) :
    EndsAlike c related least enough tokens result result' := by
  cases h with
  | ok hab hrest hlength hsame => exact .ok hab (hrest.trans hmid) (by omega) hsame
  -- If too many levels are open behind the first part, then they are in the whole.
  | error hfault hrest hsame hdeep =>
    refine .error hfault (hrest.trans hmid) hsame fun htoo => ?_
    have := hdeep htoo
    omega
  | stopped hroomier htoo hrest hdeep =>
    exact .stopped hroomier htoo (hrest.trans hmid) (by omega)

/-- A reader may be said to consume less and to need fewer tokens. -/
theorem Mirrors.mono {p : Parser α} {q : Parser β} (h : Mirrors c related least enough p q)
    (hleast : least' ≤ least) (henough : enough' ≤ enough) :
    Mirrors c related least' enough' p q := by
  intro tokens tokens' htokens
  have hends := h tokens tokens' htokens
  generalize p tokens = result, q tokens' = result' at hends ⊢
  cases hends with
  | ok hab hrest hlength hsame => exact .ok hab hrest (by omega) hsame
  | error hfault hrest hsame hdeep =>
    exact .error hfault hrest hsame fun htoo => Nat.le_trans henough (hdeep htoo)
  | stopped hroomier htoo hrest hdeep =>
    exact .stopped hroomier htoo hrest (Nat.le_trans henough hdeep)

/-- And what is read may be said to be related in a looser way. -/
theorem Mirrors.imp {looser : α → β → Prop} {p : Parser α} {q : Parser β}
    (h : Mirrors c related least enough p q) (hrelated : ∀ a b, related a b → looser a b) :
    Mirrors c looser least enough p q := by
  intro tokens tokens' htokens
  have hends := h tokens tokens' htokens
  generalize p tokens = result, q tokens' = result' at hends ⊢
  cases hends with
  | ok hab hrest hlength hsame => exact .ok (hrelated _ _ hab) hrest hlength hsame
  | error hfault hrest hsame hdeep => exact .error hfault hrest hsame hdeep
  | stopped hroomier htoo hrest hdeep => exact .stopped hroomier htoo hrest hdeep

/-- Behind what may be missing, a reader counts the token only if it was there. -/
theorem Tries.bind {p : Parser (Option α)} {q : Parser (Option β)} {k : Option α → Parser γ}
    {l : Option β → Parser δ} (hp : Tries c related p q)
    (hsome : ∀ a b, related a b →
      Mirrors c related' (least - 1) (enough - 1) (k (some a)) (l (some b)))
    (hnone : Mirrors c related' least enough (k none) (l none)) :
    Mirrors c related' least enough (p >>= k) (q >>= l) := by
  intro tokens tokens' htokens
  rcases hp tokens tokens' htokens with ⟨hread, hread'⟩ |
    ⟨a, b, rest, rest', hread, hread', hab, hrest, hlength, hsame⟩
  · rw [bind_of_ok hread, bind_of_ok hread']
    exact hnone tokens tokens' htokens
  · rw [bind_of_ok hread, bind_of_ok hread']
    exact (hsome a b hab rest rest' hsame).behind hrest hlength

/-- What is looked for is found by both readers or by none. -/
theorem Tries.mirrors {p : Parser (Option α)} {q : Parser (Option β)} (h : Tries c related p q) :
    Mirrors c (Option.Rel related) 0 enough p q := by
  intro tokens tokens' htokens
  rcases h tokens tokens' htokens with ⟨hread, hread'⟩ |
    ⟨a, b, rest, rest', hread, hread', hab, hrest, hlength, hsame⟩
  · rw [hread, hread']
    exact .ok .none (List.suffix_refl tokens) (Nat.le_refl _) htokens
  · rw [hread, hread']
    exact .ok (.some hab) hrest (Nat.le_of_lt hlength) hsame

namespace Mirrors

/-- Behind a first token, the other parts of a rule need not consume any. -/
theorem weaken {p : Parser α} {q : Parser β} (h : Mirrors c related least enough p q) :
    Mirrors c related 0 enough p q :=
  h.mono (Nat.zero_le least) (Nat.le_refl enough)

/-- There may also be fewer tokens for them. -/
theorem behind {p : Parser α} {q : Parser β} (h : Mirrors c related least (enough + 1) p q) :
    Mirrors c related 0 enough p q :=
  h.mono (Nat.zero_le least) (Nat.le_succ enough)

/-- A result that takes no tokens. -/
theorem pure {a : α} {b : β} (h : related a b) :
    Mirrors c related 0 enough (Pure.pure a) (Pure.pure b) :=
  fun tokens _ htokens => .ok h (List.suffix_refl tokens) (Nat.le_refl _) htokens

/-- What the first part consumes counts for both, so the second part has fewer tokens to deal
    with. -/
theorem bind {p : Parser α} {q : Parser β} {k : α → Parser γ} {l : β → Parser δ}
    (hp : Mirrors c related first enough p q)
    (hk : ∀ a b, related a b → Mirrors c related' (least - first) (enough - first) (k a) (l b)) :
    Mirrors c related' least enough (p >>= k) (q >>= l) := by
  intro tokens tokens' htokens
  have hends := hp tokens tokens' htokens
  generalize hread : p tokens = result, hread' : q tokens' = result' at hends
  cases hends with
  -- The second parts go on with tokens that stand for each other again.
  | ok hab hrest hlength hsame =>
    rw [bind_of_ok hread, bind_of_ok hread']
    exact (hk _ _ hab _ _ hsame).behind hrest hlength
  | error hfault hrest hsame hdeep =>
    rw [bind_of_error hread, bind_of_error hread']
    exact .error hfault hrest hsame hdeep
  -- The first reading is over, whatever the second one does.
  | stopped hroomier htoo hrest hdeep =>
    rw [bind_of_error hread]
    exact .stopped hroomier htoo hrest hdeep

/-- A fault that is not that of nesting too deeply, wherever reading stops. -/
theorem fail {fault : ParseFault} {position position' : Position}
    (h : ∀ rest, SameFault c rest ⟨fault, position⟩ ⟨fault, position'⟩)
    (hother : fault ≠ .nestingTooDeep) :
    Mirrors c related least enough (fail fault position) (fail fault position') :=
  fun tokens _ htokens =>
    .error (h tokens) (List.suffix_refl tokens) htokens fun htoo => absurd htoo hother

/-- The end of the tokens, where something is missing. -/
theorem ended (expected : Expectation) :
    Mirrors c related least enough (reject expected none) (reject expected none) :=
  fail (fun _ => .ended expected) nofun

/-- A token that fits no rule. The faults show the texts of the tokens, which may differ. -/
theorem unexpected (expected : Expectation) {t t' : Token} (h : c.token t t') :
    Mirrors c related least enough (reject expected (some t)) (reject expected (some t')) :=
  fun tokens _ htokens =>
    .error (.unexpected expected h) (List.suffix_refl tokens) htokens nofun

/-- What was found instead is a token or the end, for both readers. -/
theorem reject (expected : Expectation) {found found' : Option Token}
    (h : Option.Rel c.token found found') :
    Mirrors c related least enough (reject expected found) (reject expected found') := by
  cases h with
  | none => exact ended expected
  | some ht => exact unexpected expected ht

/-- The next tokens stand for each other, or there are none. -/
theorem peek : Mirrors c (Option.Rel c.token) 0 enough peek peek := by
  intro tokens tokens' htokens
  refine .ok ?_ (List.suffix_refl tokens) (Nat.le_refl _) htokens
  cases htokens with
  | nil => exact .none
  | cons ht _ => exact .some ht

/-- The tokens that are left bound as many rounds. -/
theorem remaining : Mirrors c (List.Forall₂ c.token) 0 enough remaining remaining :=
  fun tokens _ htokens => .ok htokens (List.suffix_refl tokens) (Nat.le_refl _) htokens

end Mirrors

/-! ## Single tokens and lists -/

/-- The next token is consumed if there is one. -/
theorem tries_next : Tries c c.token next next := by
  intro tokens tokens' htokens
  cases htokens with
  | nil => exact .inl ⟨rfl, rfl⟩
  | @cons t t' rest rest' ht hrest =>
    exact .inr ⟨t, t', rest, rest', rfl, rfl, ht, List.suffix_cons t rest, Nat.lt_add_one _, hrest⟩

/-- The next token is consumed if it is of the given kind, which both are. -/
theorem tries_nextIf (kind : TokenKind) :
    Tries c (fun t t' => c.token t t' ∧ t.kind = kind) (nextIf kind) (nextIf kind) := by
  intro tokens tokens' htokens
  rw [nextIf_eq, nextIf_eq]
  cases htokens with
  | nil => exact .inl ⟨rfl, rfl⟩
  | @cons t t' rest rest' ht hrest =>
    by_cases hkind : t.kind = kind
    · refine .inr ⟨t, t', rest, rest', ?_, ?_, ⟨ht, hkind⟩, List.suffix_cons t rest,
        Nat.lt_add_one _, hrest⟩
      · simp [hkind]
      · simp [c.kind ht, hkind]
    · refine .inl ⟨?_, ?_⟩
      · simp [hkind]
      · simp [c.kind ht, hkind]

namespace Mirrors

/-- Both next tokens are of the given kind, or neither is. -/
theorem nextIs (kind : TokenKind) : Mirrors c Eq 0 enough (nextIs kind) (nextIs kind) := by
  refine bind peek fun found found' hfound => pure ?_
  cases hfound with
  | none => rfl
  | some ht => simp [c.kind ht]

/-- A token that has to be there: both readers consume it, or both reject what they found. -/
theorem required (kind : TokenKind) (expected : Expectation) :
    Mirrors c (fun t t' => c.token t t' ∧ t.kind = kind) 1 enough (required kind expected)
      (required kind expected) :=
  (tries_nextIf kind).bind (fun _ _ ht => pure ht) (bind peek fun _ _ hfound => reject _ hfound)

/-- A symbol that has to be there. -/
theorem symbol (sign : Symbol) :
    Mirrors c (fun t t' => c.token t t' ∧ t.kind = .symbol sign) 1 enough (symbol sign)
      (symbol sign) :=
  required _ _

/-- A reserved word that has to be there. -/
theorem keyword (word : Keyword) :
    Mirrors c (fun t t' => c.token t t' ∧ t.kind = .keyword word) 1 enough (keyword word)
      (keyword word) :=
  required _ _

/-- A name is the same one for both readers, since it belongs to the kind of the token. -/
theorem identifier : Mirrors c Eq 1 enough identifier identifier := by
  intro tokens tokens' htokens
  cases htokens with
  | nil => exact ended .identifier [] [] .nil
  | @cons t t' rest rest' ht hrest =>
    have hreject : Mirrors c (Eq (α := String)) 1 enough _ _ := unexpected .identifier ht
    have hends := hreject _ _ (.cons ht hrest)
    obtain ⟨lexeme, column, rfl⟩ := Comparison.exists_eq ht
    obtain ⟨kind, _, _, _⟩ := t
    -- The tokens have the same kind, so that both are names or neither is.
    cases kind with
    | identifier name => exact .ok rfl (List.suffix_cons _ rest) (Nat.le_refl _) hrest
    | _ => exact hends

/-- And so is a type name. -/
theorem typeName : Mirrors c Eq 1 enough typeName typeName := by
  intro tokens tokens' htokens
  cases htokens with
  | nil => exact ended .typeName [] [] .nil
  | @cons t t' rest rest' ht hrest =>
    have hreject : Mirrors c (Eq (α := Kind)) 1 enough _ _ := unexpected .typeName ht
    have hends := hreject _ _ (.cons ht hrest)
    obtain ⟨lexeme, column, rfl⟩ := Comparison.exists_eq ht
    obtain ⟨kind, _, _, _⟩ := t
    cases kind with
    | literal value =>
      cases value with
      | type kind => exact .ok rfl (List.suffix_cons _ rest) (Nat.le_refl _) hrest
      | _ => exact hends
    | _ => exact hends

/-- Behind a comma there is a token less for the items. -/
theorem listRest {item : Parser α} {item' : Parser β}
    (hitem : Mirrors c related 1 enough item item') (closing : Symbol) {bound bound' : List Token}
    (hbound : List.Forall₂ c.token bound bound') :
    Mirrors c (List.Forall₂ related) 0 enough (listRest item closing bound)
      (listRest item' closing bound') := by
  induction hbound with
  | nil => exact ended _
  | cons _ _ ih =>
    refine tries_next.bind (fun t t' ht => ?_) (ended _)
    have hfirst := hitem.mono (Nat.zero_le 1) (Nat.sub_le enough 1)
    have hmore := ih.mono (Nat.le_refl 0) (Nat.sub_le enough 1)
    simp only [Option.map_some, c.kind ht]
    split
    · split
      · exact bind hfirst fun _ _ hfirst => bind hmore fun _ _ hmore => pure (.cons hfirst hmore)
      · split
        · exact pure .nil
        · exact unexpected _ ht
    · exact unexpected _ ht

/-- A list is closed at once, or has a first item that consumes a token. -/
theorem listUntil {item : Parser α} {item' : Parser β}
    (hitem : Mirrors c related 1 enough item item') (closing : Symbol) :
    Mirrors c (List.Forall₂ related) 1 enough (listUntil item closing)
      (listUntil item' closing) := by
  refine (tries_nextIf _).bind (fun _ _ _ => pure .nil) ?_
  refine bind hitem fun _ _ hfirst => bind remaining fun _ _ hbound => ?_
  have hrest := (listRest hitem closing hbound).mono (Nat.le_refl 0) (Nat.sub_le enough 1)
  exact bind hrest fun _ _ hmore => pure (List.Forall₂.cons hfirst hmore)

end Mirrors

end Parser

end Script
