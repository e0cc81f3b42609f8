import SqlForest.Proofs.Grammar.Lookahead
import SqlForest.Proofs.Grammar.Reach
import SqlForest.Proofs.Grammar.Soundness

/-!
# What derives is read

A rule reads the whole of a phrase and stops behind it, if the phrase ends there.  `Reads` states
this for one phrase.  There is one lemma for each production, and `Derives.reads` puts them together
by recursion on derivations.  Statements carry their own end, so `Sentence.read` holds whatever
follows.
-/

namespace SqlForest

namespace Grammar

open Rule

/-! ## Productions of expressions -/

/-- The rule for a phrase reads these tokens where the phrase ends behind them. -/
def Reads (limit : Nat) (p : Phrase) (level : Nat) (ts : List Token) (e : Expr) : Prop :=
  ∀ levels rest, level + levels = limit → Ends p rest →
    p.rule (Rules.ofLevels levels) (ts ++ rest) = .ok (e, rest)

/-- The rule for a chain comes behind its last operand to where it reads on with the chain. -/
def ReadsChain (limit : Nat) (c : Chain) (level further : Nat) (ts : List Token) (e : Expr) :
    Prop :=
  ∀ levels rest, level + levels = limit → Ends c.operand rest →
    c.rule (Rules.ofLevels levels) (ts ++ rest) =
      c.more (Rules.ofLevels (levels - further)) e rest

/-- The rule for items comes behind the last of them to where it reads on with them. -/
def ReadsItems (limit level : Nat) (ts : List Token) (es : List Expr) : Prop :=
  ∀ levels rest, level + levels = limit → Ends .expression rest →
    commaSeparated (Rule.expression (Rules.ofLevels levels)) (ts ++ rest) =
      laterItems (Rule.expression (Rules.ofLevels levels)) es.reverse rest

variable {limit level further : Nat} {ts us : List Token} {e l r : Expr} {es : List Expr}

/-- Behind a chain that ends there is nothing more of it. -/
theorem Chain.more_of_ends {c : Chain} {p : Phrase} {below : Rules} {left : Expr}
    {rest : List Token} (h : Ends p rest) (hle : c.reach ≤ p.reach) :
    c.more below left rest = .ok (left, rest) := by
  have hrefused : Refused c.operator? rest := h.refused (fun _ _ => Chain.reach?_operator) hle
  unfold Chain.more Rule.chain
  rw [accept?_bind_refused hrefused]
  rfl

/-- An operator of a chain is followed by an operand of the next level. -/
theorem Chain.more_of_operator {c : Chain} {joint : Token} {op : BinaryOp} {below : Rules}
    (hop : c.operator? joint = some op) (left : Expr) (rest : List Token) :
    c.more (Rules.above below) left (joint :: rest) =
      (c.operand.rule below >>= fun right => c.more below (.binary op left right)) rest := by
  have hrun : c.more (Rules.above below) left (joint :: rest) =
      (c.operandOf (Rules.above below) >>= fun right =>
        c.moreOf (Rules.above below) (.binary op left right)) rest :=
    accept?_bind_cons hop rest
  rw [hrun, Chain.operandOf_above, Chain.moreOf_above]

theorem reads_first {c : Chain} (h : Reads limit c.operand level ts e) :
    ReadsChain limit c level 0 ts e := by
  intro levels rest hlevels hends
  exact bind_of_ok (h levels rest hlevels hends)

theorem reads_further {c : Chain} {joint : Token} {op : BinaryOp}
    (hleft : ReadsChain limit c level further ts l) (hop : c.operator? joint = some op)
    (within : level + further < limit) (hright : Reads limit c.operand (level + further + 1) us r) :
    ReadsChain limit c level (further + 1) (ts ++ joint :: us) (.binary op l r) := by
  intro levels rest hlevels hends
  obtain ⟨n, hn⟩ : ∃ n, levels - further = n + 1 := ⟨levels - further - 1, by omega⟩
  have hjoint : Ends c.operand (joint :: (us ++ rest)) :=
    ends_cons (Chain.reach?_operator hop) c.operand_reach _
  have hlast : levels - (further + 1) = n := by omega
  rw [List.append_assoc, List.cons_append, hleft levels _ hlevels hjoint, hn, hlast]
  rw [Rules.ofLevels, Chain.more_of_operator hop]
  exact bind_of_ok (hright n rest (by omega) hends)

theorem reads_expression (within : level < limit)
    (h : ReadsChain limit .disjunction (level + 1) further ts e) :
    Reads limit .expression level ts e := by
  intro levels rest hlevels hends
  obtain ⟨n, rfl⟩ : ∃ n, levels = n + 1 := ⟨levels - 1, by omega⟩
  show Chain.rule .disjunction (Rules.ofLevels n) (ts ++ rest) = _
  rw [h n rest (by omega) (hends.mono (by decide))]
  exact Chain.more_of_ends hends (by decide)

/-- A phrase that is a chain is read as far as the chain goes. -/
theorem reads_chain (c : Chain) (p : Phrase) (hrule : ∀ below, p.rule below = c.rule below)
    (hreach : c.reach ≤ p.reach) (h : ReadsChain limit c level further ts e) :
    Reads limit p level ts e := by
  intro levels rest hlevels hends
  have hoperand : Ends c.operand rest := by
    apply hends.mono
    have hlt := c.operand_reach
    omega
  rw [hrule, h levels rest hlevels hoperand]
  exact Chain.more_of_ends hends hreach

theorem reads_negation {not : Token} (hnot : not.keyword? = some .NOT) (within : level < limit)
    (h : Reads limit .conjunct (level + 1) ts e) :
    Reads limit .conjunct level (not :: ts) (.unary .not e) := by
  intro levels rest hlevels hends
  obtain ⟨n, rfl⟩ : ∃ n, levels = n + 1 := ⟨levels - 1, by omega⟩
  show Rule.conjunct (Rules.ofLevels (n + 1)) (not :: (ts ++ rest)) = _
  unfold Rule.conjunct
  rw [keyword?_bind_cons hnot]
  exact map_of_ok (h n rest (by omega) hends)

/-- Every phrase from the null checks on starts with a factor. -/
theorem nullCheck_of_factor {below : Rules} {tokens : List Token} {failure : Failure}
    (h : Rule.factor below tokens = .error failure) :
    Rule.nullCheck below tokens = .error failure := by
  have hterm : Rule.term below tokens = .error failure := bind_of_error h
  have hcomparable : Rule.comparable below tokens = .error failure := bind_of_error hterm
  have hcomparison : Rule.comparison below tokens = .error failure := bind_of_error hcomparable
  exact bind_of_error hcomparison

/-- No factor starts with a keyword, so a null check is never taken for a negation. -/
theorem nullCheck_of_keyword {below : Rules} {t : Token} (h : t.kind = .keyword)
    (rest : List Token) :
    Rule.nullCheck below (t :: rest) = .error ⟨t :: rest, .expected .expression⟩ := by
  apply nullCheck_of_factor
  simp only [Rule.factor, h]

theorem reads_conjunct (h : Reads limit .nullCheck level ts e) :
    Reads limit .conjunct level ts e := by
  intro levels rest hlevels hends
  have hcheck : Rule.nullCheck (Rules.ofLevels levels) (ts ++ rest) = .ok (e, rest) :=
    h levels rest hlevels (hends.mono (by decide))
  have hnot : Refused (Token.isKeyword? .NOT) (ts ++ rest) := by
    intro t ht
    apply isKeyword?_eq_none
    intro hword
    obtain ⟨tail, htail⟩ := List.head?_eq_some_iff.mp ht
    rw [htail, nullCheck_of_keyword (kind_of_keyword? hword)] at hcheck
    simp at hcheck
  show Rule.conjunct (Rules.ofLevels levels) (ts ++ rest) = _
  unfold Rule.conjunct
  rw [keyword?_bind_refused hnot]
  exact hcheck

theorem reads_isNull {is null : Token} (h : Reads limit .comparison level ts e)
    (his : is.keyword? = some .IS) (hnull : null.keyword? = some .NULL) :
    Reads limit .nullCheck level (ts ++ [is, null]) (.nullCheck e false) := by
  intro levels rest hlevels _
  have hends : Ends .comparison (is :: null :: rest) :=
    ends_cons (Token.reach?_keyword his) (by decide) _
  have hoperand : Rule.comparison (Rules.ofLevels levels) (ts ++ is :: null :: rest) =
      .ok (e, is :: null :: rest) := h levels _ hlevels hends
  have hnot : Refused (Token.isKeyword? .NOT) (null :: rest) :=
    refused_keyword hnull (by decide) rest
  rw [List.append_assoc]
  show Rule.nullCheck (Rules.ofLevels levels) (ts ++ is :: null :: rest) = _
  unfold Rule.nullCheck
  rw [bind_of_ok hoperand, keyword?_bind_cons his, if_pos rfl,
    keyword?_bind_refused hnot, keyword_bind_cons hnull]
  rfl

theorem reads_isNotNull {is not null : Token} (h : Reads limit .comparison level ts e)
    (his : is.keyword? = some .IS) (hnot : not.keyword? = some .NOT)
    (hnull : null.keyword? = some .NULL) :
    Reads limit .nullCheck level (ts ++ [is, not, null]) (.nullCheck e true) := by
  intro levels rest hlevels _
  have hends : Ends .comparison (is :: not :: null :: rest) :=
    ends_cons (Token.reach?_keyword his) (by decide) _
  have hoperand : Rule.comparison (Rules.ofLevels levels) (ts ++ is :: not :: null :: rest) =
      .ok (e, is :: not :: null :: rest) := h levels _ hlevels hends
  rw [List.append_assoc]
  show Rule.nullCheck (Rules.ofLevels levels) (ts ++ is :: not :: null :: rest) = _
  unfold Rule.nullCheck
  rw [bind_of_ok hoperand, keyword?_bind_cons his, if_pos rfl,
    keyword?_bind_cons hnot, keyword_bind_cons hnull]
  rfl

theorem reads_nullCheck (h : Reads limit .comparison level ts e) :
    Reads limit .nullCheck level ts e := by
  intro levels rest hlevels hends
  have hoperand : Rule.comparison (Rules.ofLevels levels) (ts ++ rest) = .ok (e, rest) :=
    h levels rest hlevels (hends.mono (by decide))
  have hreach : ∀ t a, Token.isKeyword? .IS t = some a → t.reach? = some 4 := by
    intro t a ht
    exact Token.reach?_keyword (keyword?_of_isKeyword? ht)
  have his : Refused (Token.isKeyword? .IS) rest := hends.refused hreach (by decide)
  show Rule.nullCheck (Rules.ofLevels levels) (ts ++ rest) = _
  unfold Rule.nullCheck
  rw [bind_of_ok hoperand, keyword?_bind_refused his]
  rfl

theorem reads_product {sign : Token} {op : BinaryOp} (hleft : Reads limit .factor level ts l)
    (hop : sign.operator? BinaryOp.products = some op) (within : level < limit)
    (hright : Reads limit .term (level + 1) us r) :
    Reads limit .term level (ts ++ sign :: us) (.binary op l r) := by
  intro levels rest hlevels hends
  obtain ⟨n, rfl⟩ : ∃ n, levels = n + 1 := ⟨levels - 1, by omega⟩
  have hsign : Ends .factor (sign :: (us ++ rest)) :=
    ends_cons (Token.reach?_product hop) (by decide) _
  have hfactor : Rule.factor (Rules.ofLevels (n + 1)) (ts ++ sign :: (us ++ rest)) =
      .ok (l, sign :: (us ++ rest)) := hleft (n + 1) _ hlevels hsign
  rw [List.append_assoc]
  show Rule.term (Rules.ofLevels (n + 1)) (ts ++ sign :: (us ++ rest)) = _
  unfold Rule.term
  rw [bind_of_ok hfactor, accept?_bind_cons hop]
  exact map_of_ok (hright n rest (by omega) hends)

theorem reads_term (h : Reads limit .factor level ts e) : Reads limit .term level ts e := by
  intro levels rest hlevels hends
  have hfactor : Rule.factor (Rules.ofLevels levels) (ts ++ rest) = .ok (e, rest) :=
    h levels rest hlevels (hends.mono (by decide))
  have hop : Refused (Token.operator? BinaryOp.products) rest :=
    hends.refused (fun _ _ => Token.reach?_product) (by decide)
  show Rule.term (Rules.ofLevels levels) (ts ++ rest) = _
  unfold Rule.term
  rw [bind_of_ok hfactor, accept?_bind_refused hop]
  rfl

/-! ## Factors -/

section Factors

variable {below : Rules}

theorem factor_of_identifier {name : Token} (h : name.kind = .identifier) (rest : List Token) :
    Rule.factor below (name :: rest) = named below name.lexeme rest := by
  simp only [Rule.factor, h]

theorem factor_of_leftParen {opening : Token} (h : opening.kind = .leftParen) (rest : List Token) :
    Rule.factor below (opening :: rest) = closed below rest := by
  simp only [Rule.factor, h]

theorem factor_of_sign {sign : Token} {op : UnaryOp} (h : sign.kind = .operator)
    (hop : UnaryOp.sign? sign.lexeme = some op) (rest : List Token) :
    Rule.factor below (sign :: rest) = (Expr.unary op <$> below.factor) rest := by
  simp only [Rule.factor, h, hop]

theorem factor_of_number {number : Token} {value : Int} (h : number.kind = .number)
    (hvalue : Integer.ofText? number.lexeme = some value) (rest : List Token) :
    Rule.factor below (number :: rest) = .ok (.number value, rest) := by
  simp only [Rule.factor, h, hvalue]

theorem factor_of_string {string : Token} (h : string.kind = .string) (rest : List Token) :
    Rule.factor below (string :: rest) = .ok (.string string.lexeme, rest) := by
  simp only [Rule.factor, h]

end Factors

theorem reads_name {name : Token} (h : name.kind = .identifier) :
    Reads limit .factor level [name] (.identifier name.lexeme) := by
  intro levels rest _ hends
  show Rule.factor (Rules.ofLevels levels) (name :: rest) = _
  rw [factor_of_identifier h, named_eq]
  cases rest with
  | nil => rfl
  | cons next rest =>
    have hnext : next.kind ≠ .leftParen := by
      intro hopening
      have hlt := hends next rfl 0 (Token.reach?_leftParen hopening)
      exact absurd hlt (Nat.not_lt_zero _)
    simp only [namedBefore, List.head?_cons, if_neg hnext]
    rfl

theorem reads_sign {sign : Token} {op : UnaryOp} (hkind : sign.kind = .operator)
    (hop : UnaryOp.sign? sign.lexeme = some op) (within : level < limit)
    (h : Reads limit .factor (level + 1) ts e) :
    Reads limit .factor level (sign :: ts) (.unary op e) := by
  intro levels rest hlevels hends
  obtain ⟨n, rfl⟩ : ∃ n, levels = n + 1 := ⟨levels - 1, by omega⟩
  show Rule.factor (Rules.ofLevels (n + 1)) (sign :: (ts ++ rest)) = _
  rw [factor_of_sign hkind hop]
  exact map_of_ok (h n rest (by omega) hends)

theorem reads_number {number : Token} {value : Int} (hkind : number.kind = .number)
    (hvalue : Integer.ofText? number.lexeme = some value) :
    Reads limit .factor level [number] (.number value) := by
  intro levels rest _ _
  exact factor_of_number hkind hvalue rest

theorem reads_string {string : Token} (hkind : string.kind = .string) :
    Reads limit .factor level [string] (.string string.lexeme) := by
  intro levels rest _ _
  exact factor_of_string hkind rest

theorem reads_parentheses {opening closing : Token} (hopening : opening.kind = .leftParen)
    (h : Reads limit .expression level ts e) (hclosing : closing.kind = .rightParen) :
    Reads limit .factor level (opening :: (ts ++ [closing])) e := by
  intro levels rest hlevels _
  have hinner : Rule.expression (Rules.ofLevels levels) (ts ++ closing :: rest) =
      .ok (e, closing :: rest) :=
    h levels _ hlevels (ends_of_kind hclosing (by decide) _ rest)
  rw [List.cons_append, List.append_assoc]
  show Rule.factor (Rules.ofLevels levels) (opening :: (ts ++ closing :: rest)) = _
  rw [factor_of_leftParen hopening]
  unfold closed
  rw [bind_of_ok hinner, kind_bind_cons hclosing]
  rfl

/-! ## Items -/

theorem reads_one (h : Reads limit .expression level ts e) : ReadsItems limit level ts [e] := by
  intro levels rest hlevels hends
  exact commaSeparated_of_one (h levels rest hlevels hends)

theorem reads_more {comma : Token} (hitems : ReadsItems limit level ts es)
    (hcomma : comma.kind = .comma) (h : Reads limit .expression level us e) :
    ReadsItems limit level (ts ++ comma :: us) (es ++ [e]) := by
  intro levels rest hlevels hends
  have hinner := inner_expression (Rules.inner_ofLevels levels)
  have hbefore : Ends .expression (comma :: (us ++ rest)) :=
    ends_of_kind hcomma (by decide) _ _
  exact commaSeparated_of_more hinner hcomma (hitems levels _ hlevels hbefore)
    (h levels rest hlevels hends)

/-- Items in front of a token that is no comma are read to their end. -/
theorem ReadsItems.ok (h : ReadsItems limit level ts es) {levels : Nat}
    (hlevels : level + levels = limit) {rest : List Token} (hends : Ends .expression rest)
    (hcomma : Refused (Token.lexemeOf? .comma) rest) :
    commaSeparated (Rule.expression (Rules.ofLevels levels)) (ts ++ rest) = .ok (es, rest) := by
  rw [h levels rest hlevels hends, laterItems_of_refused hcomma, List.reverse_reverse]

/-- No expression starts with a closing parenthesis, so items are never taken for none. -/
theorem expression_of_rightParen (levels : Nat) {t : Token} (h : t.kind = .rightParen)
    (rest : List Token) :
    ∃ failure, Rule.expression (Rules.ofLevels levels) (t :: rest) = .error failure := by
  cases levels with
  | zero => exact ⟨_, rfl⟩
  | succ n =>
    have hnot : Refused (Token.isKeyword? .NOT) (t :: rest) := by
      refine refused_cons (isKeyword?_eq_none ?_) rest
      intro hword
      rw [kind_of_keyword? hword] at h
      simp at h
    have hcheck : Rule.nullCheck (Rules.ofLevels n) (t :: rest) =
        .error ⟨t :: rest, .expected .expression⟩ := by
      apply nullCheck_of_factor
      simp only [Rule.factor, h]
    have hconjunct : Rule.conjunct (Rules.ofLevels n) (t :: rest) =
        .error ⟨t :: rest, .expected .expression⟩ := by
      unfold Rule.conjunct
      rw [keyword?_bind_refused hnot]
      exact hcheck
    have hdisjunct : Rule.disjunct (Rules.ofLevels n) (t :: rest) =
        .error ⟨t :: rest, .expected .expression⟩ := bind_of_error hconjunct
    exact ⟨_, bind_of_error hdisjunct⟩

theorem tuple_of_empty {below : Rules} {opening closing : Token}
    (hopening : opening.kind = .leftParen) (hclosing : closing.kind = .rightParen)
    (rest : List Token) : Rule.tuple below (opening :: closing :: rest) = .ok ([], rest) := by
  unfold Rule.tuple
  rw [kind_bind_cons hopening, kind?_bind_cons hclosing]
  rfl

theorem tuple_of_items {opening closing : Token} (hopening : opening.kind = .leftParen)
    (h : ReadsItems limit level ts es) (hclosing : closing.kind = .rightParen) {levels : Nat}
    (hlevels : level + levels = limit) (rest : List Token) :
    Rule.tuple (Rules.ofLevels levels) (opening :: (ts ++ closing :: rest)) = .ok (es, rest) := by
  have hcomma : Refused (Token.lexemeOf? .comma) (closing :: rest) :=
    refused_kind hclosing (by decide) rest
  have hitems := h.ok hlevels (ends_of_kind hclosing (by decide) _ rest) hcomma
  have hsome : Refused (Token.lexemeOf? .rightParen) (ts ++ closing :: rest) := by
    intro t ht
    apply lexemeOf?_eq_none
    intro hkind
    obtain ⟨tail, htail⟩ := List.head?_eq_some_iff.mp ht
    obtain ⟨failure, hfail⟩ := expression_of_rightParen levels hkind tail
    rw [htail, commaSeparated_eq, bind_of_error hfail] at hitems
    simp at hitems
  unfold Rule.tuple
  rw [kind_bind_cons hopening, kind?_bind_refused hsome]
  show (commaSeparated (Rule.expression (Rules.ofLevels levels)) >>= _) _ = _
  rw [bind_of_ok hitems, kind_bind_cons hclosing]
  rfl

/-- A name in front of a tuple is a call. -/
theorem factor_of_call {below : Rules} {name opening : Token} (hname : name.kind = .identifier)
    (hopening : opening.kind = .leftParen) {tokens rest : List Token} {es : List Expr}
    (h : Rule.tuple below (opening :: tokens) = .ok (es, rest)) :
    Rule.factor below (name :: opening :: tokens) = .ok (.call name.lexeme es, rest) := by
  rw [factor_of_identifier hname, named_eq]
  simp only [namedBefore, List.head?_cons, if_pos hopening]
  exact map_of_ok h

theorem reads_emptyCall {name opening closing : Token} (hname : name.kind = .identifier)
    (hopening : opening.kind = .leftParen) (hclosing : closing.kind = .rightParen) :
    Reads limit .factor level [name, opening, closing] (.call name.lexeme []) := by
  intro levels rest _ _
  exact factor_of_call hname hopening (tuple_of_empty hopening hclosing rest)

theorem reads_call {name opening closing : Token} (hname : name.kind = .identifier)
    (hopening : opening.kind = .leftParen) (h : ReadsItems limit level ts es)
    (hclosing : closing.kind = .rightParen) :
    Reads limit .factor level (name :: opening :: (ts ++ [closing])) (.call name.lexeme es) := by
  intro levels rest hlevels _
  rw [List.cons_append, List.cons_append, List.append_assoc]
  exact factor_of_call hname hopening (tuple_of_items hopening h hclosing hlevels rest)

/-! ## All derivations -/

mutual

/-- Every phrase that derives is read. -/
theorem Derives.reads {p : Phrase} {level : Nat} {ts : List Token} {e : Expr} :
    Derives limit p level ts e → Reads limit p level ts e
  | .expression within chain => reads_expression within chain.reads
  | .disjunct chain => reads_chain .conjunction .disjunct (fun _ => rfl) (by decide) chain.reads
  | .negation hnot within operand => reads_negation hnot within operand.reads
  | .conjunct check => reads_conjunct check.reads
  | .isNull operand his hnull => reads_isNull operand.reads his hnull
  | .isNotNull operand his hnot hnull => reads_isNotNull operand.reads his hnot hnull
  | .nullCheck operand => reads_nullCheck operand.reads
  | .comparison chain =>
    reads_chain .comparison .comparison (fun _ => rfl) (by decide) chain.reads
  | .comparable chain => reads_chain .sum .comparable (fun _ => rfl) (by decide) chain.reads
  | .product left hop within right => reads_product left.reads hop within right.reads
  | .term factor => reads_term factor.reads
  | .name hname => reads_name hname
  | .emptyCall hname hopening hclosing => reads_emptyCall hname hopening hclosing
  | .call hname hopening items hclosing => reads_call hname hopening items.reads hclosing
  | .parentheses hopening inner hclosing => reads_parentheses hopening inner.reads hclosing
  | .sign hkind hop within operand => reads_sign hkind hop within operand.reads
  | .number hkind hvalue => reads_number hkind hvalue
  | .string hkind => reads_string hkind

theorem Chained.reads {c : Chain} {level further : Nat} {ts : List Token} {e : Expr} :
    Chained limit c level further ts e → ReadsChain limit c level further ts e
  | .first operand => reads_first operand.reads
  | .further left hop within right => reads_further left.reads hop within right.reads

theorem Items.reads {level : Nat} {ts : List Token} {es : List Expr} :
    Items limit level ts es → ReadsItems limit level ts es
  | .one item => reads_one item.reads
  | .more items hcomma item => reads_more items.reads hcomma item.reads

end

/-! ## Parts of statements -/

/-- An expression of a statement is read, whatever token that belongs to none follows. -/
theorem Derives.read {p : Phrase} (h : Derives limit p 0 ts e) {rest : List Token}
    (hends : Ends p rest) : p.rule (Rules.ofLevels limit) (ts ++ rest) = .ok (e, rest) :=
  h.reads limit rest (Nat.zero_add limit) hends

theorem Name.read {name : String} (h : Name ts name) (rest : List Token) :
    identifier (ts ++ rest) = .ok (name, rest) := by
  cases h with
  | name hkind => exact require_eq_ok.mpr ⟨_, rfl, if_pos hkind⟩

theorem Names.reads {names : List String} (h : Names ts names) (rest : List Token) :
    commaSeparated identifier (ts ++ rest) = laterItems identifier names.reverse rest := by
  induction h generalizing rest with
  | one hname => exact commaSeparated_of_one (hname.read rest)
  | more _ hcomma hlast ih =>
    exact commaSeparated_of_more inner_identifier hcomma (ih _) (hlast.read rest)

theorem Names.read {names : List String} (h : Names ts names) {rest : List Token}
    (hcomma : Refused (Token.lexemeOf? .comma) rest) :
    commaSeparated identifier (ts ++ rest) = .ok (names, rest) := by
  rw [h.reads, laterItems_of_refused hcomma, List.reverse_reverse]

/-- A table without a database must not be followed by a period. -/
theorem Table.read {table : TableName} (h : Table ts table) {rest : List Token}
    (hperiod : Refused (Token.lexemeOf? .period) rest) :
    tableName (ts ++ rest) = .ok (table, rest) := by
  unfold tableName
  cases h with
  | plain hname =>
    rw [bind_of_ok (hname.read rest), kind?_bind_refused hperiod]
    rfl
  | qualified hdatabase hdot htable =>
    rw [List.append_assoc, List.cons_append, bind_of_ok (hdatabase.read _), kind?_bind_cons hdot,
      if_pos rfl, bind_of_ok (htable.read rest)]
    rfl

theorem Tuple.read (h : Tuple limit 0 ts es) (rest : List Token) :
    Rule.tuple (Rules.ofLevels limit) (ts ++ rest) = .ok (es, rest) := by
  cases h with
  | empty hopening hclosing => exact tuple_of_empty hopening hclosing rest
  | items hopening items hclosing =>
    rw [List.cons_append, List.append_assoc]
    exact tuple_of_items hopening items.reads hclosing (Nat.zero_add limit) rest

theorem Order.read (h : Order limit ts e) {rest : List Token} (hends : Ends .expression rest) :
    (keyword .BY >>= fun _ => Rule.expression (Rules.ofLevels limit)) (ts ++ rest) =
      .ok (e, rest) := by
  cases h with
  | order hword hexpression =>
    rw [List.cons_append, keyword_bind_cons hword]
    exact hexpression.read hends

theorem Clause.read {α : Type} {word : Keyword} {content : List Token → α → Prop} {rule : Rule α}
    {clause : Option α} (h : Clause word content ts clause) {rest : List Token}
    (hcontent : ∀ us a, content us a → rule (us ++ rest) = .ok (a, rest))
    (hword : Refused (Token.isKeyword? word) rest) :
    clause? word rule (ts ++ rest) = .ok (clause, rest) := by
  unfold clause?
  cases h with
  | absent =>
    rw [List.nil_append, keyword?_bind_refused hword]
    rfl
  | present hpresent ha =>
    rw [List.cons_append, keyword?_bind_cons hpresent]
    exact map_of_ok (hcontent _ _ ha)

/-- What stands behind a part of a query is its last token or a clause that one of the words
introduces. -/
def Onward (words : List Keyword) (rest : List Token) : Prop :=
  ∀ t ∈ rest.head?, t.kind = .semicolon ∨ ∃ word ∈ words, t.keyword? = some word

theorem onward_last {last : Token} (h : last.kind = .semicolon) (words : List Keyword)
    (rest : List Token) : Onward words (last :: rest) := by
  intro t ht
  simp only [List.head?_cons, Option.mem_some_iff] at ht
  rw [← ht]
  exact Or.inl h

/-- In front of a clause stands what may stand in front of the next one, and its word. -/
theorem Clause.onward {α : Type} {word : Keyword} {words : List Keyword}
    {content : List Token → α → Prop} {clause : Option α} (h : Clause word content ts clause)
    {rest : List Token} (hrest : Onward words rest) : Onward (word :: words) (ts ++ rest) := by
  intro t ht
  cases h with
  | absent =>
    rcases hrest t ht with hlast | ⟨other, hother, hword⟩
    · exact Or.inl hlast
    · exact Or.inr ⟨other, List.mem_cons_of_mem word hother, hword⟩
  | present hpresent _ =>
    simp only [List.cons_append, List.head?_cons, Option.mem_some_iff] at ht
    rw [← ht]
    exact Or.inr ⟨word, List.mem_cons_self, hpresent⟩

section Onward

variable {words : List Keyword} {rest : List Token}

theorem Onward.refused_kind (h : Onward words rest) {k : TokenKind}
    (hk : k ≠ .semicolon ∧ k ≠ .keyword) : Refused (Token.lexemeOf? k) rest := by
  intro t ht
  apply lexemeOf?_eq_none
  rcases h t ht with hlast | ⟨word, _, hword⟩
  · rw [hlast]
    exact hk.1.symm
  · rw [kind_of_keyword? hword]
    exact hk.2.symm

theorem Onward.refused_keyword (h : Onward words rest) {word : Keyword} (hword : word ∉ words) :
    Refused (Token.isKeyword? word) rest := by
  intro t ht
  apply isKeyword?_eq_none
  intro heq
  rcases h t ht with hlast | ⟨other, hother, hne⟩
  · rw [kind_of_keyword? heq] at hlast
    simp at hlast
  · rw [heq] at hne
    rw [Option.some.inj hne] at hword
    exact hword hother

theorem Onward.ends (h : Onward words rest) (hwords : ∀ word ∈ words, word.reach? = none)
    (p : Phrase) : Ends p rest := by
  cases rest with
  | nil =>
    intro t ht
    simp at ht
  | cons t rest =>
    rcases h t rfl with hlast | ⟨word, hmem, hword⟩
    · exact ends_of_kind hlast (by decide) p rest
    · exact ends_of_keyword hword (hwords word hmem) p rest

end Onward

/-! ## Statements -/

theorem terminator_read {α : Type} {last : Token} (h : last.kind = .semicolon) (a : α)
    (rest : List Token) : (terminator >>= fun _ => pure a) (last :: rest) = .ok (a, rest) := by
  rw [terminator_bind, kind_bind_cons h]
  rfl

theorem use_read {word last : Token} {database : String} (hword : word.keyword? = some .USE)
    (hname : Name ts database) (hlast : last.kind = .semicolon) (levels : Rules)
    (rest : List Token) :
    statement levels (word :: (ts ++ [last]) ++ rest) = .ok (.use database, rest) := by
  have hrun : statement levels (word :: (ts ++ [last]) ++ rest) = useBody (ts ++ last :: rest) := by
    rw [List.cons_append, List.append_assoc]
    simp only [statement, kind_of_keyword? hword, hword, if_pos]
    rfl
  rw [hrun]
  unfold useBody
  rw [bind_of_ok (hname.read _)]
  exact terminator_read hlast _ rest

theorem select_read {word last : Token} {vs ws : List Token} {items : List Expr}
    {source : Option TableName} {condition order : Option Expr}
    (hword : word.keyword? = some .SELECT) (hitems : Items limit 0 ts items)
    (hsource : Clause .FROM Table us source)
    (hcondition : Clause .WHERE (Derives limit .expression 0) vs condition)
    (horder : Clause .ORDER (Order limit) ws order) (hlast : last.kind = .semicolon)
    (rest : List Token) :
    statement (Rules.ofLevels limit) (word :: (ts ++ (us ++ (vs ++ (ws ++ [last])))) ++ rest) =
      .ok (.select ⟨items, source, condition, order⟩, rest) := by
  -- The tokens behind each part, from the last one on.
  have hend : Onward [] (last :: rest) := onward_last hlast [] rest
  have hws : Onward [.ORDER] (ws ++ last :: rest) := horder.onward hend
  have hvs : Onward [.WHERE, .ORDER] (vs ++ (ws ++ last :: rest)) := hcondition.onward hws
  have hus : Onward [.FROM, .WHERE, .ORDER] (us ++ (vs ++ (ws ++ last :: rest))) :=
    hsource.onward hvs
  have hrun : statement (Rules.ofLevels limit)
      (word :: (ts ++ (us ++ (vs ++ (ws ++ [last])))) ++ rest) =
      selectBody (Rules.ofLevels limit) (ts ++ (us ++ (vs ++ (ws ++ last :: rest)))) := by
    simp only [List.cons_append, List.append_assoc, List.nil_append, statement,
      kind_of_keyword? hword, hword, if_pos]
  have hreadItems : commaSeparated (Rule.expression (Rules.ofLevels limit))
      (ts ++ (us ++ (vs ++ (ws ++ last :: rest)))) =
      .ok (items, us ++ (vs ++ (ws ++ last :: rest))) :=
    hitems.reads.ok (Nat.zero_add limit) (hus.ends (by decide) _) (hus.refused_kind (by decide))
  have hreadSource : clause? .FROM tableName (us ++ (vs ++ (ws ++ last :: rest))) =
      .ok (source, vs ++ (ws ++ last :: rest)) := by
    refine hsource.read ?_ (hvs.refused_keyword (by decide))
    intro tokens table htable
    exact htable.read (hvs.refused_kind (by decide))
  have hreadCondition : clause? .WHERE (Rule.expression (Rules.ofLevels limit))
      (vs ++ (ws ++ last :: rest)) = .ok (condition, ws ++ last :: rest) := by
    refine hcondition.read ?_ (hws.refused_keyword (by decide))
    intro tokens e he
    exact he.read (hws.ends (by decide) _)
  have hreadOrder : clause? .ORDER (keyword .BY >>= fun _ =>
      Rule.expression (Rules.ofLevels limit)) (ws ++ last :: rest) = .ok (order, last :: rest) := by
    refine horder.read ?_ (hend.refused_keyword (by decide))
    intro tokens e he
    exact he.read (hend.ends (by decide) _)
  rw [hrun]
  unfold selectBody
  rw [bind_of_ok hreadItems, bind_of_ok hreadSource, bind_of_ok hreadCondition,
    bind_of_ok hreadOrder]
  exact terminator_read hlast _ rest

theorem insert_read {word into opening closing row last : Token} {vs : List Token}
    {table : TableName} {columns : List String} {values : List Expr}
    (hword : word.keyword? = some .INSERT) (hinto : into.keyword? = some .INTO)
    (htable : Table ts table) (hopening : opening.kind = .leftParen)
    (hcolumns : Names us columns) (hclosing : closing.kind = .rightParen)
    (hrow : row.keyword? = some .VALUES) (hvalues : Tuple limit 0 vs values)
    (hlast : last.kind = .semicolon) (rest : List Token) :
    statement (Rules.ofLevels limit)
        (word :: into :: (ts ++ opening :: (us ++ closing :: row :: (vs ++ [last]))) ++ rest) =
      .ok (.insert ⟨table, columns, values⟩, rest) := by
  have hrun : statement (Rules.ofLevels limit)
      (word :: into :: (ts ++ opening :: (us ++ closing :: row :: (vs ++ [last]))) ++ rest) =
      insertBody (Rules.ofLevels limit)
        (into :: (ts ++ opening :: (us ++ closing :: row :: (vs ++ last :: rest)))) := by
    simp only [List.cons_append, List.append_assoc, List.nil_append, statement,
      kind_of_keyword? hword, hword, if_pos]
  rw [hrun]
  unfold insertBody
  rw [keyword_bind_cons hinto, bind_of_ok (htable.read (refused_kind hopening (by decide) _)),
    kind_bind_cons hopening, bind_of_ok (hcolumns.read (refused_kind hclosing (by decide) _)),
    kind_bind_cons hclosing, keyword_bind_cons hrow, bind_of_ok (hvalues.read _)]
  exact terminator_read hlast _ rest

theorem delete_read {word source filter last : Token} {table : TableName} {condition : Expr}
    (hword : word.keyword? = some .DELETE) (hsource : source.keyword? = some .FROM)
    (htable : Table ts table) (hfilter : filter.keyword? = some .WHERE)
    (hcondition : Derives limit .expression 0 us condition) (hlast : last.kind = .semicolon)
    (rest : List Token) :
    statement (Rules.ofLevels limit) (word :: source :: (ts ++ filter :: (us ++ [last])) ++ rest) =
      .ok (.delete ⟨table, condition⟩, rest) := by
  have hrun : statement (Rules.ofLevels limit)
      (word :: source :: (ts ++ filter :: (us ++ [last])) ++ rest) =
      deleteBody (Rules.ofLevels limit) (source :: (ts ++ filter :: (us ++ last :: rest))) := by
    simp only [List.cons_append, List.append_assoc, List.nil_append, statement,
      kind_of_keyword? hword, hword, if_pos]
  have hperiod : Refused (Token.lexemeOf? .period) (filter :: (us ++ last :: rest)) :=
    refused_kind (kind_of_keyword? hfilter) (by decide) _
  have hreadCondition : Rule.expression (Rules.ofLevels limit) (us ++ last :: rest) =
      .ok (condition, last :: rest) := hcondition.read (ends_of_kind hlast (by decide) _ rest)
  rw [hrun]
  unfold deleteBody
  rw [keyword_bind_cons hsource, bind_of_ok (htable.read hperiod), keyword_bind_cons hfilter,
    bind_of_ok hreadCondition]
  exact terminator_read hlast _ rest

/-- A statement is read whatever stands behind it. -/
theorem Sentence.read {statement : Statement} (h : Sentence limit ts statement)
    (rest : List Token) :
    Rule.statement (Rules.ofLevels limit) (ts ++ rest) = .ok (statement, rest) := by
  cases h with
  | use hword hname hlast => exact use_read hword hname hlast _ rest
  | select hword hitems hsource hcondition horder hlast =>
    exact select_read hword hitems hsource hcondition horder hlast rest
  | insert hword hinto htable hopening hcolumns hclosing hrow hvalues hlast =>
    exact insert_read hword hinto htable hopening hcolumns hclosing hrow hvalues hlast rest
  | delete hword hsource htable hfilter hcondition hlast =>
    exact delete_read hword hsource htable hfilter hcondition hlast rest

end Grammar

end SqlForest
