import SqlForest.Parse.Script

/-!
# How sequences of rules run

The rules of the grammar are sequences whose first step asks for the next token or reads it if it is
wanted.  The equations below run the first step of a sequence:

* `bind_of_ok` and `bind_of_error` when its outcome is known;
* `kind_bind_cons`, `keyword_bind_cons` when the token that it asks for comes next;
* `accept?_bind_cons`, `kind?_bind_cons`, `keyword?_bind_cons` for a step that may read nothing, and
  `accept?_bind_refused` and its siblings when it does.

`Refused f tokens` says that the next token is none that `f` accepts.

Three rules look at the next token before they choose what to read.  `factor_eq`, `named_eq` and
`statement_eq` give the sequence that each of them chooses.
-/

namespace SqlForest

namespace Rule

variable {α β : Type}

/-! ## The first step of a sequence -/

theorem bind_of_ok {r : Rule α} {f : α → Rule β} {tokens rest : List Token} {a : α}
    (h : r tokens = .ok (a, rest)) : (r >>= f) tokens = f a rest := by
  rw [bind_apply, h]

theorem bind_of_error {r : Rule α} {f : α → Rule β} {tokens : List Token} {failure : Failure}
    (h : r tokens = .error failure) : (r >>= f) tokens = .error failure := by
  rw [bind_apply, h]

theorem map_of_ok {f : α → β} {r : Rule α} {tokens rest : List Token} {a : α}
    (h : r tokens = .ok (a, rest)) : (f <$> r) tokens = .ok (f a, rest) :=
  map_eq_ok.mpr ⟨a, h, rfl⟩

/-! ## Tokens that must come next -/

theorem require_bind_cons {f : Token → Option α} {what : Expectation} {g : α → Rule β}
    {token : Token} {a : α} (h : f token = some a) (rest : List Token) :
    (require f what >>= g) (token :: rest) = g a rest :=
  bind_of_ok (require_eq_ok.mpr ⟨token, rfl, h⟩)

theorem kind_bind_cons {k : TokenKind} {g : String → Rule β} {token : Token} (h : token.kind = k)
    (rest : List Token) : (kind k >>= g) (token :: rest) = g token.lexeme rest :=
  require_bind_cons (if_pos h) rest

theorem keyword_bind_cons {k : Keyword} {g : Unit → Rule β} {token : Token}
    (h : token.keyword? = some k) (rest : List Token) :
    (keyword k >>= g) (token :: rest) = g () rest :=
  require_bind_cons (if_pos h) rest

/-- The terminator of a statement is its semicolon. -/
theorem terminator_bind (g : Unit → Rule β) :
    (terminator >>= g) = (kind .semicolon >>= fun _ => g ()) := by
  unfold terminator
  rw [bind_assoc]
  rfl

/-! ## Tokens that may come next -/

/-- The next token, if there is one, is not accepted. -/
def Refused (f : Token → Option α) (tokens : List Token) : Prop :=
  ∀ t ∈ tokens.head?, f t = none

theorem refused_nil (f : Token → Option α) : Refused f [] := by
  intro t ht
  simp at ht

theorem refused_cons {f : Token → Option α} {token : Token} (h : f token = none)
    (rest : List Token) : Refused f (token :: rest) := by
  intro t ht
  simp only [List.head?_cons, Option.mem_some_iff] at ht
  rwa [← ht]

theorem accept?_bind_cons {f : Token → Option α} {g : Option α → Rule β} {token : Token} {a : α}
    (h : f token = some a) (rest : List Token) :
    (accept? f >>= g) (token :: rest) = g (some a) rest := by
  apply bind_of_ok
  rw [accept?_cons, h]
  rfl

theorem accept?_bind_refused {f : Token → Option α} {g : Option α → Rule β} {tokens : List Token}
    (h : Refused f tokens) : (accept? f >>= g) tokens = g none tokens := by
  apply bind_of_ok
  cases tokens with
  | nil => rfl
  | cons token rest =>
    rw [accept?_cons, h token rfl]
    rfl

/-- A step that only tells whether it has read a token is the step that reads it. -/
theorem isSome_bind {f : Token → Option α} {g : Bool → Rule β} :
    (Option.isSome <$> accept? f >>= g) = (accept? f >>= fun a => g a.isSome) := by
  rw [map_eq_pure_bind, bind_assoc]
  simp only [pure_bind]

theorem kind?_bind_cons {k : TokenKind} {g : Bool → Rule β} {token : Token} (h : token.kind = k)
    (rest : List Token) : (kind? k >>= g) (token :: rest) = g true rest := by
  unfold kind?
  rw [isSome_bind]
  exact accept?_bind_cons (if_pos h) rest

theorem kind?_bind_refused {k : TokenKind} {g : Bool → Rule β} {tokens : List Token}
    (h : Refused (Token.lexemeOf? k) tokens) : (kind? k >>= g) tokens = g false tokens := by
  unfold kind?
  rw [isSome_bind]
  exact accept?_bind_refused h

theorem keyword?_bind_cons {k : Keyword} {g : Bool → Rule β} {token : Token}
    (h : token.keyword? = some k) (rest : List Token) :
    (keyword? k >>= g) (token :: rest) = g true rest := by
  unfold keyword?
  rw [isSome_bind]
  exact accept?_bind_cons (if_pos h) rest

theorem keyword?_bind_refused {k : Keyword} {g : Bool → Rule β} {tokens : List Token}
    (h : Refused (Token.isKeyword? k) tokens) : (keyword? k >>= g) tokens = g false tokens := by
  unfold keyword?
  rw [isSome_bind]
  exact accept?_bind_refused h

theorem lexemeOf?_eq_none {k : TokenKind} {t : Token} (h : t.kind ≠ k) : t.lexemeOf? k = none :=
  if_neg h

theorem isKeyword?_eq_none {k : Keyword} {t : Token} (h : t.keyword? ≠ some k) :
    t.isKeyword? k = none :=
  if_neg h

theorem refused_kind {t : Token} {k other : TokenKind} (h : t.kind = k) (hne : k ≠ other)
    (rest : List Token) : Refused (Token.lexemeOf? other) (t :: rest) := by
  refine refused_cons (lexemeOf?_eq_none ?_) rest
  rwa [h]

theorem refused_keyword {t : Token} {word other : Keyword} (h : t.keyword? = some word)
    (hne : word ≠ other) (rest : List Token) : Refused (Token.isKeyword? other) (t :: rest) := by
  refine refused_cons (isKeyword?_eq_none ?_) rest
  rw [h]
  intro heq
  exact hne (Option.some.inj heq)

theorem kind_of_lexemeOf? {k : TokenKind} {t : Token} {lexeme : String}
    (h : t.lexemeOf? k = some lexeme) : t.kind = k ∧ t.lexeme = lexeme := by
  obtain ⟨hk, hlexeme⟩ := Option.ite_none_right_eq_some.mp h
  exact ⟨hk, Option.some.inj hlexeme⟩

theorem keyword?_of_isKeyword? {k : Keyword} {t : Token} {u : Unit}
    (h : t.isKeyword? k = some u) : t.keyword? = some k :=
  (Option.ite_none_right_eq_some.mp h).1

/-- Only tokens of the kind `keyword` stand for keywords. -/
theorem kind_of_keyword? {k : Keyword} {t : Token} (h : t.keyword? = some k) :
    t.kind = .keyword :=
  (Option.ite_none_right_eq_some.mp h).1

theorem keyword?_of_disjunction? {t : Token} {op : BinaryOp} (h : t.disjunction? = some op) :
    t.keyword? = some .OR :=
  (Option.ite_none_right_eq_some.mp h).1

theorem keyword?_of_conjunction? {t : Token} {op : BinaryOp} (h : t.conjunction? = some op) :
    t.keyword? = some .AND :=
  (Option.ite_none_right_eq_some.mp h).1

theorem kind_of_operator? {group : List BinaryOp} {t : Token} {op : BinaryOp}
    (h : t.operator? group = some op) : t.kind = .operator :=
  (Option.ite_none_right_eq_some.mp h).1

/-! ## Items with commas between them -/

/-- Without a comma the list of items is complete. -/
theorem moreItems_of_refused {item : Rule α} {budget read tokens}
    (h : Refused (Token.lexemeOf? .comma) tokens) :
    moreItems item budget read tokens = .ok (read.reverse, tokens) := by
  cases budget with
  | nil => rfl
  | cons _ budget =>
    unfold moreItems
    rw [kind?_bind_refused h]
    rfl

theorem moreItems_of_comma {item : Rule α} {budget rest : List Token} {read : List α}
    {b token : Token} (h : token.kind = .comma) :
    moreItems item (b :: budget) read (token :: rest) =
      (item >>= fun next => moreItems item budget (next :: read)) rest := by
  rw [moreItems, kind?_bind_cons h]
  rfl

/-! ## Rules that look at the next token first -/

/-- What a name in front of the given token denotes. -/
def namedBefore (below : Rules) (name : String) : Option Token → Rule Expr
  | none => pure (.identifier name)
  | some token =>
    if token.kind = .leftParen then Expr.call name <$> tuple below else pure (.identifier name)

theorem named_eq (below : Rules) (name : String) (tokens : List Token) :
    named below name tokens = namedBefore below name tokens.head? tokens := by
  cases tokens with
  | nil => rfl
  | cons token rest =>
    simp only [named, namedBefore, List.head?_cons]
    split
    · rfl
    · rfl

/-- The sign that a token stands for. -/
def sign? (t : Token) : Option UnaryOp :=
  if t.kind = .operator then UnaryOp.sign? t.lexeme else none

/-- The integer that a token denotes. -/
def integer? (t : Token) : Option Int :=
  if t.kind = .number then Integer.ofText? t.lexeme else none

theorem sign?_eq_some {t : Token} {sign : UnaryOp} :
    sign? t = some sign ↔ t.kind = .operator ∧ UnaryOp.sign? t.lexeme = some sign :=
  Option.ite_none_right_eq_some

theorem integer?_eq_some {t : Token} {value : Int} :
    integer? t = some value ↔ t.kind = .number ∧ Integer.ofText? t.lexeme = some value :=
  Option.ite_none_right_eq_some

/-- A factor that starts with the given token. -/
def factorFrom (below : Rules) : Option Token → Rule Expr
  | none => fail (.expected .expression)
  | some token =>
    match token.kind with
    | .identifier => kind .identifier >>= named below
    | .leftParen => kind .leftParen >>= fun _ => closed below
    | .operator =>
      if (UnaryOp.sign? token.lexeme).isSome then
        require sign? (.kind .operator) >>= fun sign => Expr.unary sign <$> below.factor
      else fail .notASign
    | .number =>
      if (Integer.ofText? token.lexeme).isSome then
        require integer? (.kind .number) >>= fun value => pure (.number value)
      else fail .numberTooLong
    | .string => kind .string >>= fun body => pure (.string body)
    | _ => fail (.expected .expression)

theorem factor_eq (below : Rules) (tokens : List Token) :
    factor below tokens = factorFrom below tokens.head? tokens := by
  cases tokens with
  | nil => rfl
  | cons token rest =>
    simp only [factor, factorFrom, List.head?_cons]
    cases hk : token.kind with
    | identifier =>
      change named below token.lexeme rest = (kind .identifier >>= named below) (token :: rest)
      rw [kind_bind_cons hk]
    | leftParen =>
      change closed below rest = (kind .leftParen >>= fun _ => closed below) (token :: rest)
      rw [kind_bind_cons hk]
    | operator =>
      cases hs : UnaryOp.sign? token.lexeme with
      | none => rfl
      | some sign =>
        have hsign : sign? token = some sign := sign?_eq_some.mpr ⟨hk, hs⟩
        change _ =
          (require sign? _ >>= fun sign => Expr.unary sign <$> below.factor) (token :: rest)
        rw [require_bind_cons hsign]
    | number =>
      cases hv : Integer.ofText? token.lexeme with
      | none => rfl
      | some value =>
        have hvalue : integer? token = some value := integer?_eq_some.mpr ⟨hk, hv⟩
        change _ = (require integer? _ >>= fun value => pure (Expr.number value)) (token :: rest)
        rw [require_bind_cons hvalue, pure_apply]
    | string =>
      change _ = (kind .string >>= fun body => pure (Expr.string body)) (token :: rest)
      rw [kind_bind_cons hk, pure_apply]
    | _ => rfl

/-- A statement that starts with the given token. -/
def statementFrom (levels : Rules) : Option Token → Rule Statement
  | none => fail (.expected .statement)
  | some token =>
    match token.keyword? with
    | some .USE => keyword .USE >>= fun _ => useBody
    | some .SELECT => keyword .SELECT >>= fun _ => selectBody levels
    | some .INSERT => keyword .INSERT >>= fun _ => insertBody levels
    | some .DELETE => keyword .DELETE >>= fun _ => deleteBody levels
    | _ => if token.kind = .keyword then fail .unexpectedKeyword else fail (.expected .statement)

theorem statement_eq (levels : Rules) (tokens : List Token) :
    statement levels tokens = statementFrom levels tokens.head? tokens := by
  cases tokens with
  | nil => rfl
  | cons token rest =>
    unfold statement statementFrom
    simp only [List.head?_cons]
    by_cases hk : token.kind = .keyword
    · rw [if_pos hk, if_pos hk]
      cases hw : token.keyword? with
      | none => rfl
      | some word =>
        cases word with
        | USE =>
          change useBody rest = (keyword .USE >>= fun _ => useBody) (token :: rest)
          rw [keyword_bind_cons hw]
        | SELECT =>
          change _ = (keyword .SELECT >>= fun _ => selectBody levels) (token :: rest)
          rw [keyword_bind_cons hw]
        | INSERT =>
          change _ = (keyword .INSERT >>= fun _ => insertBody levels) (token :: rest)
          rw [keyword_bind_cons hw]
        | DELETE =>
          change _ = (keyword .DELETE >>= fun _ => deleteBody levels) (token :: rest)
          rw [keyword_bind_cons hw]
        | _ => rfl
    · have hw : token.keyword? = none := if_neg hk
      rw [if_neg hk, if_neg hk, hw]
      rfl

end Rule

end SqlForest
