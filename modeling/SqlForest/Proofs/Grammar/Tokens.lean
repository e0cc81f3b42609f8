import SqlForest.Proofs.Grammar.Completeness

/-!
# The tokens of statements

The end of input is not among the tokens of a derivation (`Sentence.withoutEnd`): every production
names the kinds or the keywords of its own tokens.
-/

namespace SqlForest

/-- Tokens none of which marks the end of input. -/
abbrev WithoutEnd (tokens : List Token) : Prop :=
  Without .endOfInput tokens

theorem Without.cons_kind {t : Token} {tokens : List Token} {k other : TokenKind}
    (h : Without k tokens) (ht : t.kind = other) (hne : other ≠ k) : Without k (t :: tokens) := by
  rw [← ht] at hne
  exact h.cons hne

theorem Without.cons_keyword {t : Token} {tokens : List Token} (h : WithoutEnd tokens)
    {k : Keyword} (ht : t.keyword? = some k) : WithoutEnd (t :: tokens) :=
  h.cons_kind (Rule.kind_of_keyword? ht) (by decide)

theorem Without.cons_operator {t : Token} {tokens : List Token} (h : WithoutEnd tokens)
    {group : List BinaryOp} {op : BinaryOp} (ht : t.operator? group = some op) :
    WithoutEnd (t :: tokens) :=
  h.cons_kind (Rule.kind_of_operator? ht) (by decide)

namespace Grammar

/-! ## The tokens of derivations -/

theorem Chain.operator?_ne_endOfInput {c : Chain} {t : Token} {op : BinaryOp}
    (h : c.operator? t = some op) : t.kind ≠ .endOfInput := by
  intro hkind
  have hreach := Chain.reach?_operator h
  unfold Token.reach? at hreach
  rw [hkind] at hreach
  simp at hreach

variable {limit : Nat}

mutual

theorem Derives.withoutEnd {p : Phrase} {level : Nat} {ts : List Token} {e : Expr} :
    Derives limit p level ts e → WithoutEnd ts
  | .expression _ chain => chain.withoutEnd
  | .disjunct chain => chain.withoutEnd
  | .negation hnot _ operand => operand.withoutEnd.cons_keyword hnot
  | .conjunct check => check.withoutEnd
  | .isNull operand his hnull =>
    operand.withoutEnd.append (((without_nil _).cons_keyword hnull).cons_keyword his)
  | .isNotNull operand his hnot hnull =>
    operand.withoutEnd.append
      ((((without_nil _).cons_keyword hnull).cons_keyword hnot).cons_keyword his)
  | .nullCheck operand => operand.withoutEnd
  | .comparison chain => chain.withoutEnd
  | .comparable chain => chain.withoutEnd
  | .product left hop _ right => left.withoutEnd.append (right.withoutEnd.cons_operator hop)
  | .term factor => factor.withoutEnd
  | .name hname => (without_nil _).cons_kind hname (by decide)
  | .emptyCall hname hopening hclosing =>
    (((without_nil _).cons_kind hclosing (by decide)).cons_kind hopening (by decide)).cons_kind
      hname (by decide)
  | .call hname hopening items hclosing =>
    ((items.withoutEnd.append ((without_nil _).cons_kind hclosing (by decide))).cons_kind hopening
      (by decide)).cons_kind hname (by decide)
  | .parentheses hopening inner hclosing =>
    (inner.withoutEnd.append ((without_nil _).cons_kind hclosing (by decide))).cons_kind hopening
      (by decide)
  | .sign hkind _ _ operand => operand.withoutEnd.cons_kind hkind (by decide)
  | .number hkind _ => (without_nil _).cons_kind hkind (by decide)
  | .string hkind => (without_nil _).cons_kind hkind (by decide)

theorem Chained.withoutEnd {c : Chain} {level further : Nat} {ts : List Token} {e : Expr} :
    Chained limit c level further ts e → WithoutEnd ts
  | .first operand => operand.withoutEnd
  | .further left hop _ right =>
    left.withoutEnd.append (right.withoutEnd.cons (Chain.operator?_ne_endOfInput hop))

theorem Items.withoutEnd {level : Nat} {ts : List Token} {es : List Expr} :
    Items limit level ts es → WithoutEnd ts
  | .one item => item.withoutEnd
  | .more items hcomma item =>
    items.withoutEnd.append (item.withoutEnd.cons_kind hcomma (by decide))

end

theorem Tuple.withoutEnd {level : Nat} {ts : List Token} {es : List Expr}
    (h : Tuple limit level ts es) : WithoutEnd ts := by
  cases h with
  | empty hopening hclosing =>
    exact ((without_nil _).cons_kind hclosing (by decide)).cons_kind hopening (by decide)
  | items hopening items hclosing =>
    have hclosed := items.withoutEnd.append ((without_nil _).cons_kind hclosing (by decide))
    exact hclosed.cons_kind hopening (by decide)

theorem Name.withoutEnd {ts : List Token} {name : String} (h : Name ts name) : WithoutEnd ts := by
  cases h with
  | name hkind => exact (without_nil _).cons_kind hkind (by decide)

theorem Names.withoutEnd {ts : List Token} {names : List String} (h : Names ts names) :
    WithoutEnd ts := by
  induction h with
  | one hname => exact hname.withoutEnd
  | more _ hcomma hlast ih => exact ih.append (hlast.withoutEnd.cons_kind hcomma (by decide))

theorem Table.withoutEnd {ts : List Token} {table : TableName} (h : Table ts table) :
    WithoutEnd ts := by
  cases h with
  | plain hname => exact hname.withoutEnd
  | qualified hdatabase hperiod htable =>
    exact hdatabase.withoutEnd.append (htable.withoutEnd.cons_kind hperiod (by decide))

theorem Order.withoutEnd {ts : List Token} {e : Expr} (h : Order limit ts e) : WithoutEnd ts := by
  cases h with
  | order hword hexpression => exact hexpression.withoutEnd.cons_keyword hword

theorem Clause.withoutEnd {α : Type} {word : Keyword} {content : List Token → α → Prop}
    {ts : List Token} {clause : Option α} (h : Clause word content ts clause)
    (hcontent : ∀ us a, content us a → WithoutEnd us) : WithoutEnd ts := by
  cases h with
  | absent => exact (without_nil _)
  | present hword ha => exact (hcontent _ _ ha).cons_keyword hword

/-- The end of input is no token of a statement. -/
theorem Sentence.withoutEnd {ts : List Token} {statement : Statement}
    (h : Sentence limit ts statement) : WithoutEnd ts := by
  have hend : ∀ {last : Token}, last.kind = .semicolon → WithoutEnd [last] := by
    intro last hlast
    exact (without_nil _).cons_kind hlast (by decide)
  cases h with
  | use hword hname hlast => exact (hname.withoutEnd.append (hend hlast)).cons_keyword hword
  | select hword hitems hsource hcondition horder hlast =>
    have hfrom := hsource.withoutEnd fun _ _ => Table.withoutEnd
    have hwhere := hcondition.withoutEnd fun _ _ => Derives.withoutEnd
    have hby := horder.withoutEnd fun _ _ => Order.withoutEnd
    have hclauses := hfrom.append (hwhere.append (hby.append (hend hlast)))
    exact (hitems.withoutEnd.append hclauses).cons_keyword hword
  | insert hword hinto htable hopening hcolumns hclosing hrow hvalues hlast =>
    have hvalued := (hvalues.withoutEnd.append (hend hlast)).cons_keyword hrow
    have hclosed := hvalued.cons_kind hclosing (by decide)
    have hopened := (hcolumns.withoutEnd.append hclosed).cons_kind hopening (by decide)
    exact ((htable.withoutEnd.append hopened).cons_keyword hinto).cons_keyword hword
  | delete hword hsource htable hfilter hcondition hlast =>
    have hfiltered := (hcondition.withoutEnd.append (hend hlast)).cons_keyword hfilter
    exact ((htable.withoutEnd.append hfiltered).cons_keyword hsource).cons_keyword hword

end Grammar

end SqlForest
