import SqlForest.Proofs.Rule.Sequence

/-!
# Rules on changed tokens

A rule decides by the kinds of tokens and by the lexemes of those that are no names.  Names are only
passed on, and positions are not looked at.  A change of tokens with respect for that
(`Token.Renames`) may therefore be made before a rule runs or after it: `Rule.Carries f g r r'` says
that `r'` does with changed tokens what `r` does with the tokens themselves, up to the change `f` of
what is left and a change `g` of what is read.  This file proves it of the steps of rules and of
their sequences.
-/

namespace SqlForest

/-- `f` changes names as `n` does, and neither another lexeme nor a kind.  It may move tokens in any
way. -/
structure Token.Renames (f : Token → Token) (n : String → String) : Prop where
  kind : ∀ t, (f t).kind = t.kind
  name : ∀ t, t.kind = .identifier → (f t).lexeme = n t.lexeme
  lexeme : ∀ t, t.kind ≠ .identifier → (f t).lexeme = t.lexeme

/-- The failure among changed tokens. -/
def Failure.map (f : Token → Token) (failure : Failure) : Failure :=
  ⟨failure.rest.map f, failure.fault⟩

namespace Rule

variable {α β γ δ : Type} {f : Token → Token} {g : α → β} {h : γ → δ}

/-- The outcome of a rule, with what is left and what is read changed. -/
def carried (f : Token → Token) (g : α → β) :
    Except Failure (α × List Token) → Except Failure (β × List Token)
  | .ok (a, rest) => .ok (g a, rest.map f)
  | .error failure => .error (failure.map f)

/-- What `r` does with tokens `r'` does with the changed ones. -/
def Carries (f : Token → Token) (g : α → β) (r : Rule α) (r' : Rule β) : Prop :=
  ∀ tokens, r' (tokens.map f) = carried f g (r tokens)

/-! ## Sequences -/

theorem carries_pure (a : α) : Carries f g (pure a) (pure (g a)) := by
  intro tokens
  rfl

theorem carries_fail (fault : SyntaxFault) : Carries f g (fail fault) (fail fault) := by
  intro tokens
  rfl

theorem Carries.bind {r : Rule α} {r' : Rule β} {k : α → Rule γ} {k' : β → Rule δ}
    (hr : Carries f g r r') (hk : ∀ a, Carries f h (k a) (k' (g a))) :
    Carries f h (r >>= k) (r' >>= k') := by
  intro tokens
  rw [bind_apply, bind_apply, hr tokens]
  cases r tokens with
  | ok read => exact hk read.1 read.2
  | error failure => rfl

theorem Carries.map {r : Rule α} {r' : Rule β} {j : α → γ} {j' : β → δ} (hr : Carries f g r r')
    (hj : ∀ a, h (j a) = j' (g a)) : Carries f h (j <$> r) (j' <$> r') := by
  rw [map_eq_pure_bind, map_eq_pure_bind]
  refine hr.bind ?_
  intro a
  rw [← hj a]
  exact carries_pure (j a)

/-- It is enough that the rules that the next token chooses do the same. -/
theorem carries_of_next {r : Rule α} {r' : Rule β} {choose : Option Token → Rule α}
    {choose' : Option Token → Rule β} (hr : ∀ tokens, r tokens = choose tokens.head? tokens)
    (hr' : ∀ tokens, r' tokens = choose' tokens.head? tokens)
    (hchoose : ∀ next, Carries f g (choose next) (choose' (next.map f))) : Carries f g r r' := by
  intro tokens
  rw [hr, hr', List.head?_map]
  exact hchoose tokens.head? tokens

/-! ## Single tokens -/

theorem carries_accept? {o : Token → Option α} {o' : Token → Option β}
    (ho : ∀ t, o' (f t) = (o t).map g) : Carries f (Option.map g) (accept? o) (accept? o') := by
  intro tokens
  cases tokens with
  | nil => rfl
  | cons t rest =>
    rw [List.map_cons, accept?_cons, accept?_cons, ho t]
    cases o t with
    | none => rfl
    | some a => rfl

theorem carries_require {o : Token → Option α} {o' : Token → Option β} {what : Expectation}
    (ho : ∀ t, o' (f t) = (o t).map g) : Carries f g (require o what) (require o' what) := by
  intro tokens
  cases tokens with
  | nil => rfl
  | cons t rest =>
    rw [List.map_cons, require, require, ho t]
    cases o t with
    | none => rfl
    | some a => rfl

end Rule

namespace Token.Renames

variable {f : Token → Token} {n : String → String}

/-- Only names are changed, and all of them by `n`. -/
theorem lexemeOf?_eq (hf : Renames f n) {k : TokenKind} (t : Token) :
    (f t).lexemeOf? k = (t.lexemeOf? k).map (if k = .identifier then n else id) := by
  unfold lexemeOf?
  rw [hf.kind t]
  by_cases hk : t.kind = k
  · rw [if_pos hk, if_pos hk]
    by_cases hname : k = .identifier
    · rw [if_pos hname, hf.name t (hk.trans hname)]
      rfl
    · rw [if_neg hname, hf.lexeme t (fun h => hname (hk.symm.trans h))]
      rfl
  · rw [if_neg hk, if_neg hk]
    rfl

theorem keyword?_eq (hf : Renames f n) (t : Token) : (f t).keyword? = t.keyword? := by
  unfold keyword?
  rw [hf.kind t]
  by_cases hk : t.kind = .keyword
  · rw [if_pos hk, if_pos hk, hf.lexeme t (by rw [hk]; decide)]
  · rw [if_neg hk, if_neg hk]

theorem isKeyword?_eq (hf : Renames f n) (k : Keyword) (t : Token) :
    (f t).isKeyword? k = t.isKeyword? k := by
  unfold isKeyword?
  rw [hf.keyword?_eq t]

theorem disjunction?_eq (hf : Renames f n) (t : Token) : (f t).disjunction? = t.disjunction? := by
  unfold disjunction?
  rw [hf.keyword?_eq t]

theorem conjunction?_eq (hf : Renames f n) (t : Token) : (f t).conjunction? = t.conjunction? := by
  unfold conjunction?
  rw [hf.keyword?_eq t]

theorem operator?_eq (hf : Renames f n) (group : List BinaryOp) (t : Token) :
    (f t).operator? group = t.operator? group := by
  unfold operator?
  rw [hf.kind t]
  by_cases hk : t.kind = .operator
  · rw [if_pos hk, if_pos hk, hf.lexeme t (by rw [hk]; decide)]
  · rw [if_neg hk, if_neg hk]

end Token.Renames

namespace Rule

variable {α β : Type} {f : Token → Token} {n : String → String} {g : α → β}

theorem carries_identifier (hf : Token.Renames f n) : Carries f n identifier identifier :=
  carries_require fun t => hf.lexemeOf?_eq t

theorem carries_kind (hf : Token.Renames f n) {k : TokenKind} (hk : k ≠ .identifier) :
    Carries f id (kind k) (kind k) := by
  refine carries_require ?_
  intro t
  rw [hf.lexemeOf?_eq t, if_neg hk]

theorem carries_keyword (hf : Token.Renames f n) (k : Keyword) :
    Carries f id (keyword k) (keyword k) := by
  refine carries_require ?_
  intro t
  rw [hf.isKeyword?_eq k t, Option.map_id, id]

theorem carries_kind? (hf : Token.Renames f n) (k : TokenKind) :
    Carries f id (kind? k) (kind? k) := by
  refine (carries_accept? fun t => hf.lexemeOf?_eq t).map ?_
  intro found
  rw [Option.isSome_map, id]

theorem carries_keyword? (hf : Token.Renames f n) (k : Keyword) :
    Carries f id (keyword? k) (keyword? k) := by
  have haccept : Carries f (Option.map id) (accept? (Token.isKeyword? k))
      (accept? (Token.isKeyword? k)) := by
    refine carries_accept? ?_
    intro t
    rw [hf.isKeyword?_eq k t, Option.map_id, id]
  refine haccept.map ?_
  intro found
  rw [Option.isSome_map, id]

/-! ## Lists -/

theorem carries_moreItems (hf : Token.Renames f n) {item : Rule α} {item' : Rule β}
    (hitem : Carries f g item item') (budget : List Token) (read : List α) :
    Carries f (List.map g) (moreItems item budget read)
      (moreItems item' (budget.map f) (read.map g)) := by
  induction budget generalizing read with
  | nil =>
    rw [List.map_nil, moreItems, moreItems, ← List.map_reverse]
    exact carries_pure read.reverse
  | cons b budget ih =>
    rw [List.map_cons, moreItems, moreItems]
    refine (carries_kind? hf .comma).bind ?_
    intro found
    cases found with
    | true => exact hitem.bind fun next => ih (next :: read)
    | false =>
      show Carries f (List.map g) (pure read.reverse) (pure (read.map g).reverse)
      rw [← List.map_reverse]
      exact carries_pure read.reverse

theorem carries_commaSeparated (hf : Token.Renames f n) {item : Rule α} {item' : Rule β}
    (hitem : Carries f g item item') :
    Carries f (List.map g) (commaSeparated item) (commaSeparated item') := by
  refine hitem.bind ?_
  intro first rest
  exact carries_moreItems hf hitem rest [first] rest

end Rule

end SqlForest
