import SqlForest.Proofs.Descent.Parser
import SqlForest.Proofs.Grammar.Soundness
import SqlForest.Proofs.Rule.Lookahead

/-!
# Runs with the outcome of a rule

A parser whose cursor is at a token (`Parser.AtToken`) has some tokens left.  What a rule does with
them a run may do as well (`Parser.Does`): it goes past the tokens that the rule reads, and so the
cursor is at a token again; or it reports the token where the rule fails, and leaves the count at a
level that the limit allows.  The levels that the run has entered stand in front of the record, and
the limit allows all of them.

`Routine.Agrees` says so of a routine and a rule.  Here are the routines for single tokens.  Those
that nest are in `SqlForest.Proofs.Descent.Phrases`.
-/

namespace SqlForest

open Grammar

/-! ## What a parser has left -/

namespace Parser

/-- The tokens that have not been read. -/
def rest (p : Parser) : List Token :=
  p.stream.tokens.drop p.current

/-- The parser with the cursor behind some more tokens, at a level, once it has entered the levels
of `log`. -/
def moved (p : Parser) (count level : Nat) (log : List Entry) : Parser :=
  { p with current := p.current + count, depth := level, entered := log ++ p.entered }

/-- The cursor is at a token, be it the one that closes the stream. -/
def AtToken (p : Parser) : Prop :=
  p.current ≤ p.stream.tokens.length

/-- The level is not beyond the limit, if there is one. -/
def Allows (p : Parser) (level : Nat) : Prop :=
  ∀ limit ∈ p.limit, level ≤ limit

theorem next_eq (p : Parser) : p.next = p.rest.headD p.stream.finish := by
  unfold next rest TokenStream.toList
  rw [List.getD_eq_getElem?_getD, List.headD_eq_head?_getD, List.head?_drop]
  by_cases hin : p.current < p.stream.tokens.length
  · rw [List.getElem?_append_left hin]
  · have hle : p.stream.tokens.length ≤ p.current := by omega
    rw [List.getElem?_append_right hle, List.getElem?_eq_none hle]
    cases p.current - p.stream.tokens.length with
    | zero => rfl
    | succ n => rfl

theorem AtToken.next?_eq {p : Parser} (h : p.AtToken) : p.next? = some p.next := by
  have hin : p.current < p.stream.toList.length := by
    rw [TokenStream.toList, List.length_append, List.length_singleton]
    exact Nat.lt_succ_of_le h
  unfold next? next
  rw [List.getD_eq_getElem?_getD, List.getElem?_eq_getElem hin, Option.getD_some]

/-- A parser at a token can look at it. -/
theorem AtToken.peek {p : Parser} (h : p.AtToken) : Routine.peek p = some (.ok p.next, p) := by
  rw [Routine.peek, h.next?_eq]
  rfl

theorem AtToken.refuse {α : Type} {p : Parser} (h : p.AtToken) (fault : SyntaxFault) :
    (Routine.refuse fault : Routine α) p = some (.error (p.diagnostic fault), p) := by
  show (Routine.peek p).bind _ = _
  rw [h.peek]
  rfl

/-- A cursor in front of a token is at a token. -/
theorem atToken_of_cons {p : Parser} {t : Token} {rest : List Token} (h : p.rest = t :: rest) :
    p.AtToken := by
  rcases Nat.le_total p.current p.stream.tokens.length with hle | hge
  · exact hle
  · have hnil : p.rest = [] := List.drop_eq_nil_of_le hge
    rw [h] at hnil
    cases hnil

theorem next_of_cons {p : Parser} {t : Token} {rest : List Token} (h : p.rest = t :: rest) :
    p.next = t ∧ t.kind ≠ .endOfInput := by
  have hmem : t ∈ p.rest := by
    rw [h]
    exact List.mem_cons_self
  refine ⟨?_, p.stream.kind_ne_endOfInput t (List.mem_of_mem_drop hmem)⟩
  rw [next_eq, h, List.headD_cons]

/-- Where a token is left the cursor is at it. -/
theorem atToken_of_ne {p : Parser} (h : p.rest ≠ []) : p.AtToken ∧ p.next.kind ≠ .endOfInput := by
  obtain ⟨t, rest, hrest⟩ := List.exists_cons_of_ne_nil h
  obtain ⟨hnext, hkind⟩ := next_of_cons hrest
  exact ⟨atToken_of_cons hrest, hnext ▸ hkind⟩

theorem next_of_nil {p : Parser} (h : p.rest = []) :
    p.next = p.stream.finish ∧ p.next.kind = .endOfInput := by
  have hnext : p.next = p.stream.finish := by rw [next_eq, h, List.headD_nil]
  refine ⟨hnext, ?_⟩
  rw [hnext]
  exact p.stream.finish_kind

/-- There is a token left if the next one is not the end of input. -/
theorem exists_rest_of_kind {p : Parser} {k : TokenKind} (hk : k ≠ .endOfInput)
    (h : p.next.kind = k) : ∃ t rest, p.rest = t :: rest ∧ t.kind = k := by
  cases hrest : p.rest with
  | nil =>
    rw [(next_of_nil hrest).2] at h
    exact absurd h.symm hk
  | cons t rest => exact ⟨t, rest, rfl, (next_of_cons hrest).1 ▸ h⟩

theorem refused_of_kind {p : Parser} {k : TokenKind} (h : p.next.kind ≠ k) :
    Rule.Refused (Token.lexemeOf? k) p.rest := by
  cases hrest : p.rest with
  | nil => exact Rule.refused_nil _
  | cons t rest =>
    rw [(next_of_cons hrest).1] at h
    exact Rule.refused_cons (Rule.lexemeOf?_eq_none h) rest

/-- A fault at the next token is the failure of a rule on what is left. -/
theorem diagnostic_eq (p : Parser) (fault : SyntaxFault) :
    p.diagnostic fault = Failure.diagnostic ⟨p.rest, fault⟩ p.stream.finish := by
  unfold diagnostic Failure.diagnostic
  rw [next_eq]

theorem rest_moved {p : Parser} (used : List Token) {rest : List Token}
    (h : p.rest = used ++ rest) (level : Nat) (log : List Entry) :
    (p.moved used.length level log).rest = rest := by
  show p.stream.tokens.drop (p.current + used.length) = rest
  rw [← List.drop_drop]
  show p.rest.drop used.length = rest
  rw [h, List.drop_left]

theorem rest_past {p : Parser} {t : Token} {rest : List Token} (h : p.rest = t :: rest)
    (level : Nat) (log : List Entry) : (p.moved 1 level log).rest = rest :=
  rest_moved [t] h level log

/-- The cursor stays within the stream. -/
theorem AtToken.moved {p : Parser} (h : p.AtToken) (used : List Token) {rest : List Token}
    (hrest : p.rest = used ++ rest) (level : Nat) (log : List Entry) :
    (p.moved used.length level log).AtToken := by
  have hle : p.current ≤ p.stream.tokens.length := h
  have hlength := congrArg List.length hrest
  rw [Parser.rest, List.length_drop, List.length_append] at hlength
  show p.current + used.length ≤ p.stream.tokens.length
  omega

theorem moved_moved (p : Parser) (us vs : List Token) (level further : Nat)
    (log more : List Entry) :
    (p.moved us.length level log).moved vs.length further more =
      p.moved (us ++ vs).length further (more ++ log) := by
  simp only [moved, List.length_append, Nat.add_assoc, List.append_assoc]

/-- A level that has been entered stands in the record between those before it and those behind
it. -/
theorem enter_moved (p : Parser) (us vs : List Token) (reached level further : Nat)
    (log more : List Entry) :
    ((p.moved us.length reached log).enter level).moved vs.length further more =
      p.moved (us ++ vs).length further (more ++ ⟨level, p.current + us.length⟩ :: log) := by
  simp only [moved, enter, List.length_append, Nat.add_assoc, List.append_assoc, List.cons_append]

/-! ## Runs -/

/-- The outcome of a run from the parser is that of a rule on the tokens that are left.  A result
leaves the parser at one of `levels`. -/
inductive Does {α : Type} (p : Parser) (levels : Nat → Prop) :
    Except Failure (α × List Token) → Option (Except Diagnostic α × Parser) → Prop
  | reads (used : List Token) (log : List Entry) {rest : List Token} {a : α} {level : Nat}
      (hrest : p.rest = used ++ rest) (hlevel : levels level) (hlog : ∀ e ∈ log, p.Allows e.level) :
      Does p levels (.ok (a, rest)) (some (.ok a, p.moved used.length level log))
  | fails (used : List Token) (log : List Entry) {failure : Failure} {level : Nat}
      (hrest : p.rest = used ++ failure.rest) (hlevel : p.Allows level)
      (hlog : ∀ e ∈ log, p.Allows e.level) :
      Does p levels (.error failure)
        (some (.error (failure.diagnostic p.stream.finish), p.moved used.length level log))

section Does

variable {α : Type} {p : Parser} {levels : Nat → Prop}
  {outcome : Except Failure (α × List Token)} {run : Option (Except Diagnostic α × Parser)}

/-- A run that begins behind some tokens is the end of a run that begins in front of them. -/
theorem Does.behind (used : List Token) (level : Nat) (log : List Entry)
    (h : (p.moved used.length level log).Does levels outcome run) {rest : List Token}
    (hrest : p.rest = used ++ rest) (hlog : ∀ e ∈ log, p.Allows e.level) :
    p.Does levels outcome run := by
  have hmoved := rest_moved used hrest level log
  cases h with
  | reads us more hlater hlevel hmore =>
    rw [moved_moved]
    refine .reads (used ++ us) (more ++ log) ?_ hlevel (List.forall_mem_append.mpr ⟨hmore, hlog⟩)
    rw [hrest, ← hmoved, hlater, List.append_assoc]
  | fails us more hlater hlevel hmore =>
    rw [moved_moved]
    refine .fails (used ++ us) (more ++ log) ?_ hlevel (List.forall_mem_append.mpr ⟨hmore, hlog⟩)
    rw [hrest, ← hmoved, hlater, List.append_assoc]

theorem Does.backAt (h : p.Does levels outcome run) {back : Nat} (hback : p.Allows back) :
    p.Does (· = back) outcome (run.map (Routine.backAt back)) := by
  cases h with
  | reads used log hrest _ hlog => exact .reads used log hrest rfl hlog
  | fails used log hrest _ hlog => exact .fails used log hrest hback hlog

theorem does_pure (a : α) (h : levels p.depth) :
    p.Does levels (.ok (a, p.rest)) (some (.ok a, p)) :=
  .reads [] [] rfl h (List.forall_mem_nil _)

theorem does_refuse (hat : p.AtToken) (fault : SyntaxFault) (h : p.Allows p.depth) :
    p.Does levels (.error ⟨p.rest, fault⟩ : Except Failure (α × List Token))
      (Routine.refuse fault p) := by
  rw [hat.refuse, diagnostic_eq]
  exact .fails [] [] rfl h (List.forall_mem_nil _)

/-- A failure says nothing of what would have been read. -/
theorem Does.of_error {β : Type} {later : Nat → Prop} {failure : Failure} {d : Diagnostic}
    {q : Parser}
    (h : p.Does levels (.error failure : Except Failure (α × List Token)) (some (.error d, q))) :
    p.Does later (.error failure : Except Failure (β × List Token)) (some (.error d, q)) := by
  cases h with
  | fails used log hrest hlevel hlog => exact .fails used log hrest hlevel hlog

/-- What a run does under a limit does not take it beyond any limit if there is none. -/
theorem Does.unlimited {result : Except Diagnostic α} {q : Parser}
    (h : p.Does levels outcome (some (result, q))) :
    (p.under none).Does levels outcome (some (result, q.under none)) := by
  have hallows : ∀ level, (p.under none).Allows level := by
    intro level limit hlimit
    cases hlimit
  cases h with
  | reads used log hrest hlevel _ =>
    exact .reads used log hrest hlevel fun e _ => hallows e.level
  | fails used log hrest _ _ =>
    exact .fails used log hrest (hallows _) fun e _ => hallows e.level

end Does

end Parser

namespace Routine

variable {α β : Type}

/-- From a parser at the level the routine does what the rule does with the tokens that are left. -/
def Agrees (limit level : Nat) (levels : Nat → Prop) (r : Routine α) (rule : Rule α) : Prop :=
  ∀ p : Parser, p.AtToken → p.limit = some limit → p.depth = level →
    p.Does levels (rule p.rest) (r p)

theorem bind_apply (r : Routine α) (f : α → Routine β) (p : Parser) :
    (r >>= f) p =
      match r p with
      | some (.ok a, q) => f a q
      | some (.error d, q) => some (.error d, q)
      | none => none := by
  show (r p).bind _ = _
  rcases r p with _ | ⟨_ | _, q⟩ <;> rfl

/-! ## Single tokens -/

theorem peek_bind {f : Token → Routine β} {p : Parser} (h : p.AtToken) :
    (peek >>= f) p = f p.next p := by
  rw [bind_apply, h.peek]

theorem advance_of_nil {p : Parser} (hat : p.AtToken) (h : p.rest = []) :
    advance p = some (.ok (), p) := by
  rw [advance, peek_bind hat, if_pos (Parser.next_of_nil h).2]
  rfl

theorem advance_of_cons {p : Parser} {t : Token} {rest : List Token} (h : p.rest = t :: rest) :
    advance p = some (.ok (), p.moved 1 p.depth []) := by
  obtain ⟨rfl, hkind⟩ := Parser.next_of_cons h
  rw [advance, peek_bind (Parser.atToken_of_cons h), if_neg hkind]
  rfl

theorem advance_bind {f : Unit → Routine β} {p : Parser} {t : Token} {rest : List Token}
    (h : p.rest = t :: rest) : (advance >>= f) p = f () (p.moved 1 p.depth []) := by
  rw [bind_apply, advance_of_cons h]

/-- The end of input is not accepted. -/
def Ordinary (f : Token → Option α) : Prop :=
  ∀ t, t.kind = .endOfInput → f t = none

theorem ordinary_lexemeOf? {k : TokenKind} (h : k ≠ .endOfInput) :
    Ordinary (Token.lexemeOf? k) := by
  intro t ht
  refine Rule.lexemeOf?_eq_none ?_
  rw [ht]
  exact h.symm

theorem ordinary_isKeyword? (k : Keyword) : Ordinary (Token.isKeyword? k) := by
  intro t ht
  refine Rule.isKeyword?_eq_none ?_
  intro hk
  have hkind := Rule.kind_of_keyword? hk
  rw [ht] at hkind
  exact absurd hkind (by decide)

theorem ordinary_operator? (group : List BinaryOp) : Ordinary (Token.operator? group) := by
  intro t ht
  refine if_neg ?_
  rw [ht]
  decide

theorem ordinary_chain (c : Chain) : Ordinary c.operator? := by
  intro t ht
  have hkeyword : ∀ k, t.keyword? ≠ some k := by
    intro k hk
    have hkind := Rule.kind_of_keyword? hk
    rw [ht] at hkind
    exact absurd hkind (by decide)
  cases c with
  | disjunction => exact if_neg (hkeyword .OR)
  | conjunction => exact if_neg (hkeyword .AND)
  | comparison => exact ordinary_operator? _ t ht
  | sum => exact ordinary_operator? _ t ht

theorem eat?_of_none {f : Token → Option α} {p : Parser} (hat : p.AtToken)
    (h : f p.next = none) : eat? f p = some (.ok none, p) := by
  rw [eat?, peek_bind hat, h]
  rfl

theorem eat?_of_cons {f : Token → Option α} {p : Parser} {t : Token} {rest : List Token} {a : α}
    (hrest : p.rest = t :: rest) (h : f t = some a) :
    eat? f p = some (.ok (some a), p.moved 1 p.depth []) := by
  rw [eat?, peek_bind (Parser.atToken_of_cons hrest), (Parser.next_of_cons hrest).1, h]
  exact advance_bind hrest

theorem require_eq (f : Token → Option α) (what : Expectation) :
    Rule.require f what = (do
      match ← Rule.accept? f with
      | some a => pure a
      | none => Rule.fail (.expected what)) := by
  funext tokens
  cases tokens with
  | nil => rfl
  | cons t rest =>
    rw [Rule.bind_apply, Rule.accept?_cons, Rule.require]
    cases f t with
    | none => rfl
    | some a => rfl

theorem kind?_bind_of_ne {k : TokenKind} {f : Bool → Routine β} {p : Parser} (hat : p.AtToken)
    (h : p.next.kind ≠ k) : (kind? k >>= f) p = f false p := by
  rw [bind_apply, kind?, bind_apply, eat?_of_none hat (Rule.lexemeOf?_eq_none h)]
  rfl

theorem kind?_bind_of_cons {k : TokenKind} {f : Bool → Routine β} {p : Parser} {t : Token}
    {rest : List Token} (hrest : p.rest = t :: rest) (h : t.kind = k) :
    (kind? k >>= f) p = f true (p.moved 1 p.depth []) := by
  rw [bind_apply, kind?, bind_apply, eat?_of_cons hrest (if_pos h)]
  rfl

theorem kind_bind_of_cons {k : TokenKind} {f : String → Routine β} {p : Parser} {t : Token}
    {rest : List Token} (hrest : p.rest = t :: rest) (h : t.kind = k) :
    (kind k >>= f) p = f t.lexeme (p.moved 1 p.depth []) := by
  rw [bind_apply, kind, expect, bind_apply, eat?_of_cons hrest (if_pos h)]
  rfl

end Routine

end SqlForest
