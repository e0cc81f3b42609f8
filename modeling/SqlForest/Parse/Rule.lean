import SqlForest.Diagnostic
import SqlForest.Token.Stream

/-!
# Rules

A rule of the grammar reads a beginning of the tokens and yields what it denotes and the tokens
behind it, or fails at the first token that does not fit.  Rules do not see the token that marks
the end of input: the empty list stands for it.
-/

namespace SqlForest

/-- Why a rule fails.  The first of the tokens in `rest` does not fit, or the end of input if there
are none. -/
structure Failure where
  rest : List Token
  fault : SyntaxFault
deriving DecidableEq, Repr

/-- A rule of the grammar. -/
def Rule (α : Type) : Type :=
  List Token → Except Failure (α × List Token)

namespace Rule

variable {α β : Type}

/-- Reads nothing. -/
protected def pure (a : α) : Rule α := fun tokens =>
  .ok (a, tokens)

/-- Reads by one rule and goes on by another. -/
protected def bind (r : Rule α) (f : α → Rule β) : Rule β := fun tokens =>
  match r tokens with
  | .ok (a, rest) => f a rest
  | .error failure => .error failure

instance : Monad Rule where
  pure := Rule.pure
  bind := Rule.bind

instance : LawfulMonad Rule := LawfulMonad.mk' Rule
  (by
    intro _ r
    funext tokens
    change Rule.bind r Rule.pure tokens = r tokens
    unfold Rule.bind
    cases r tokens <;> rfl)
  (by
    intros
    rfl)
  (by
    intro _ _ _ r f g
    funext tokens
    change Rule.bind (Rule.bind r f) g tokens = Rule.bind r (fun a => Rule.bind (f a) g) tokens
    unfold Rule.bind
    cases r tokens <;> rfl)

/-- Fails at the next token. -/
def fail (fault : SyntaxFault) : Rule α := fun tokens =>
  .error ⟨tokens, fault⟩

/-- Reads the next token if `f` accepts it, and nothing otherwise. -/
def accept? (f : Token → Option α) : Rule (Option α)
  | [] => .ok (none, [])
  | token :: rest =>
    match f token with
    | some a => .ok (some a, rest)
    | none => .ok (none, token :: rest)

/-- Reads the next token, which `f` must accept. -/
def require (f : Token → Option α) (what : Expectation) : Rule α
  | [] => .error ⟨[], .expected what⟩
  | token :: rest =>
    match f token with
    | some a => .ok (a, rest)
    | none => .error ⟨token :: rest, .expected what⟩

/-! ## How rules combine -/

@[simp] theorem pure_apply (a : α) (tokens : List Token) :
    (pure a : Rule α) tokens = .ok (a, tokens) := rfl

theorem bind_apply (r : Rule α) (f : α → Rule β) (tokens : List Token) :
    (r >>= f) tokens =
      match r tokens with
      | .ok (a, rest) => f a rest
      | .error failure => .error failure := rfl

/-- A sequence succeeds when both of its parts do, the second on what the first leaves. -/
theorem bind_eq_ok {r : Rule α} {f : α → Rule β} {tokens : List Token} {b : β}
    {rest : List Token} :
    (r >>= f) tokens = .ok (b, rest) ↔
      ∃ a middle, r tokens = .ok (a, middle) ∧ f a middle = .ok (b, rest) := by
  rw [bind_apply]
  cases r tokens with
  | ok read =>
    constructor
    · exact fun h => ⟨read.1, read.2, rfl, h⟩
    · rintro ⟨a, middle, h, hf⟩
      cases h
      exact hf
  | error failure => simp

/-- A sequence fails when its first part does, or its second on what the first leaves. -/
theorem bind_eq_error {r : Rule α} {f : α → Rule β} {tokens : List Token} {failure : Failure} :
    (r >>= f) tokens = .error failure ↔
      r tokens = .error failure ∨
        ∃ a middle, r tokens = .ok (a, middle) ∧ f a middle = .error failure := by
  rw [bind_apply]
  cases r tokens with
  | ok read =>
    constructor
    · exact fun h => .inr ⟨read.1, read.2, rfl, h⟩
    · rintro (h | ⟨a, middle, h, hf⟩)
      · cases h
      · cases h
        exact hf
  | error failure => simp

/-- A mapped rule reads what the rule reads. -/
theorem map_eq_ok {f : α → β} {r : Rule α} {tokens : List Token} {b : β} {rest : List Token} :
    (f <$> r) tokens = .ok (b, rest) ↔ ∃ a, r tokens = .ok (a, rest) ∧ f a = b := by
  rw [← bind_pure_comp, bind_eq_ok]
  constructor
  · rintro ⟨a, middle, h, e⟩
    cases e
    exact ⟨a, h, rfl⟩
  · rintro ⟨a, h, rfl⟩
    exact ⟨a, rest, h, rfl⟩

/-- A mapped rule fails where the rule fails. -/
theorem map_eq_error {f : α → β} {r : Rule α} {tokens : List Token} {failure : Failure} :
    (f <$> r) tokens = .error failure ↔ r tokens = .error failure := by
  rw [← bind_pure_comp, bind_eq_error]
  constructor
  · rintro (h | ⟨a, middle, h, e⟩)
    · exact h
    · cases e
  · exact fun h => .inl h

/-! ## Single tokens -/

@[simp] theorem accept?_nil (f : Token → Option α) : accept? f [] = .ok (none, []) := rfl

/-- A token that is not accepted is not read. -/
theorem accept?_cons (f : Token → Option α) (token : Token) (rest : List Token) :
    accept? f (token :: rest) =
      .ok (f token, if (f token).isSome then rest else token :: rest) := by
  cases h : f token <;> simp [accept?, h]

@[simp] theorem require_nil (f : Token → Option α) (what : Expectation) :
    require f what [] = .error ⟨[], .expected what⟩ := rfl

/-- A token is read exactly when it is accepted. -/
theorem require_eq_ok {f : Token → Option α} {what : Expectation} {tokens : List Token} {a : α}
    {rest : List Token} :
    require f what tokens = .ok (a, rest) ↔ ∃ token, tokens = token :: rest ∧ f token = some a := by
  cases tokens with
  | nil => simp
  | cons token tokens =>
    constructor
    · intro h
      cases hf : f token with
      | none => simp [require, hf] at h
      | some b =>
        simp only [require, hf, Except.ok.injEq, Prod.mk.injEq] at h
        obtain ⟨rfl, rfl⟩ := h
        exact ⟨token, rfl, hf⟩
    · rintro ⟨_, h, hf⟩
      cases h
      simp [require, hf]

end Rule

/-- The lexeme of a token of the given kind. -/
def Token.lexemeOf? (kind : TokenKind) (t : Token) : Option String :=
  if t.kind = kind then some t.lexeme else none

/-- Accepts the tokens that stand for the given keyword. -/
def Token.isKeyword? (keyword : Keyword) (t : Token) : Option Unit :=
  if t.keyword? = some keyword then some () else none

namespace Rule

/-- Reads a token of the given kind. -/
def kind (k : TokenKind) : Rule String :=
  require (Token.lexemeOf? k) (.kind k)

/-- Reads the given keyword. -/
def keyword (k : Keyword) : Rule Unit :=
  require (Token.isKeyword? k) (.keyword k)

/-- Reads a token of the given kind if it comes next, and tells whether it did. -/
def kind? (k : TokenKind) : Rule Bool :=
  Option.isSome <$> accept? (Token.lexemeOf? k)

/-- Reads the given keyword if it comes next, and tells whether it did. -/
def keyword? (k : Keyword) : Rule Bool :=
  Option.isSome <$> accept? (Token.isKeyword? k)

/-- Reads a name. -/
def identifier : Rule String :=
  kind .identifier

/-! ## Lists -/

/-- Reads further items, each behind a comma.  `budget` bounds their number: every one of them
takes a token of its own. -/
def moreItems (item : Rule α) : (budget : List Token) → (read : List α) → Rule (List α)
  | [], read => pure read.reverse
  | _ :: budget, read => do
    if ← kind? .comma then
      let next ← item
      moreItems item budget (next :: read)
    else pure read.reverse

/-- Reads one or more items with commas between them. -/
def commaSeparated (item : Rule α) : Rule (List α) := do
  let first ← item
  fun rest => moreItems item rest [first] rest

end Rule

end SqlForest
