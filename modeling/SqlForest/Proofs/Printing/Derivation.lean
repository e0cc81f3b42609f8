import SqlForest.Proofs.Printing.Lexemes

/-!
# Statements in writing derive

The lexemes that a statement is written with form a sentence of the grammar which denotes that
statement (`Statement.sentence`).  How deep a derivation goes is a matter of size: without
parentheses around it an expression of `n` nodes needs at most `2 * n - 2` levels below its own, and
at most one more in any place that it can stand in.  Two for a node are enough because a further
operand of a chain is only as many levels down as there are operands before it.
-/

namespace SqlForest

open Grammar Lexeme

/-- The tokens with the given lexemes, all of them at one position. -/
def tokensAt (p : Position) (ls : List Lexeme) : List Token :=
  ls.map fun l => l.token p

section Tokens

variable {p : Position}

theorem tokensAt_cons (l : Lexeme) (ls : List Lexeme) :
    tokensAt p (l :: ls) = l.token p :: tokensAt p ls := rfl

theorem tokensAt_append (ls ms : List Lexeme) :
    tokensAt p (ls ++ ms) = tokensAt p ls ++ tokensAt p ms :=
  List.map_append

theorem keyword?_token (word : Keyword) : (word.lexeme.token p).keyword? = some word :=
  Keyword.ofWord?_spelling word

/-- The token of an operator stands for it in the chain that it belongs to. -/
theorem operator?_token {op : BinaryOp} {c : Chain} (h : op.chain? = some c) :
    c.operator? (op.lexeme.token p) = some op := by
  cases op with
  | or =>
    obtain rfl := Option.some.inj h
    exact if_pos (keyword?_token .OR)
  | and =>
    obtain rfl := Option.some.inj h
    exact if_pos (keyword?_token .AND)
  | multiply | divide | modulo => simp [BinaryOp.chain?] at h
  | _ =>
    obtain rfl := Option.some.inj h
    rfl

theorem product?_token {op : BinaryOp} (h : op.chain? = none) :
    (op.lexeme.token p).operator? BinaryOp.products = some op := by
  cases op with
  | multiply | divide | modulo => rfl
  | _ => simp [BinaryOp.chain?] at h

end Tokens

namespace Grammar

/-! ## Tighter phrases in looser places -/

/-- The next looser kind of phrase. -/
def Phrase.looser : Phrase → Phrase
  | expression | disjunct => .expression
  | conjunct => .disjunct
  | nullCheck => .conjunct
  | comparison => .nullCheck
  | comparable => .comparison
  | term => .comparable
  | factor => .term

theorem Phrase.tightness_looser (phrase : Phrase) :
    phrase.looser.tightness = phrase.tightness - 1 := by
  cases phrase <;> rfl

theorem Phrase.tightness_injective {phrase place : Phrase}
    (h : phrase.tightness = place.tightness) : phrase = place := by
  revert h
  cases phrase <;> cases place <;> decide

section Loosen

variable {limit level : Nat} {ts : List Token} {e : Expr} {phrase place : Phrase}

theorem Derives.looser (h : Derives limit phrase level ts e) (hphrase : 2 ≤ phrase.tightness) :
    Derives limit phrase.looser level ts e := by
  cases phrase with
  | expression => exact absurd hphrase (by decide)
  | disjunct => exact absurd hphrase (by decide)
  | conjunct => exact .disjunct (.first h)
  | nullCheck => exact .conjunct h
  | comparison => exact .nullCheck h
  | comparable => exact .comparison (.first h)
  | term => exact .comparable (.first h)
  | factor => exact .term h

/-- A phrase can stand wherever one that is as loose or looser can.  Only an expression is a level
of its own. -/
theorem Derives.loosen (h : Derives limit phrase level ts e)
    (hle : place.tightness ≤ phrase.tightness) (hplace : 1 ≤ place.tightness) :
    Derives limit place level ts e := by
  induction hn : phrase.tightness - place.tightness generalizing phrase with
  | zero =>
    obtain rfl : phrase = place := Phrase.tightness_injective (by omega)
    exact h
  | succ n ih =>
    have hlooser := phrase.tightness_looser
    exact ih (h.looser (by omega)) (by omega) (by omega)

/-- A phrase that is no expression is one on the level above. -/
theorem Derives.toExpression (h : Derives limit phrase (level + 1) ts e) (hlevel : level < limit)
    (hphrase : 1 ≤ phrase.tightness) : Derives limit .expression level ts e := by
  have hdisjunct : Derives limit .disjunct (level + 1) ts e := h.loosen hphrase (by decide)
  exact .expression hlevel (.first hdisjunct)

end Loosen

theorem Chain.tightness_operand (c : Chain) :
    c.operand.tightness = c.phrase.tightness + 1 := by
  cases c <;> rfl

/-- Items go on behind a first item. -/
theorem Items.cons {limit level : Nat} {comma : Token} {ts us : List Token} {e : Expr}
    {es : List Expr} (first : Derives limit .expression level ts e)
    (hcomma : comma.kind = .comma) (h : Items limit level us es) :
    Items limit level (ts ++ comma :: us) (e :: es) := by
  -- Items are mutual with derivations, so the induction is on the number of tokens.
  induction hlength : us.length using Nat.strongRecOn generalizing us es with
  | ind n ih =>
    subst hlength
    cases h with
    | one item => exact .more (.one first) hcomma item
    | @more _ comma' us' vs _ _ items hcomma' item =>
      have hless : us'.length < (us' ++ comma' :: vs).length := by
        rw [List.length_append, List.length_cons]
        omega
      have hlater := ih _ hless items rfl
      rw [← List.cons_append, ← List.cons_append, ← List.append_assoc]
      exact .more hlater hcomma' item

end Grammar

/-! ## Expressions -/

/-- The chain that an expression forms, if it is one. -/
def Expr.chain? : Expr → Option Chain
  | binary op _ _ => op.chain?
  | _ => none

/-- Only chains of its own kind are as loose as a chain. -/
theorem Expr.chain?_of_phrase {e : Expr} {c : Chain} (h : e.phrase = c.phrase) :
    e.chain? = some c := by
  cases e with
  | binary op left right =>
    revert h
    show op.phrase = c.phrase → op.chain? = some c
    cases op <;> cases c <;> decide
  | unary op operand =>
    revert h
    show op.phrase = c.phrase → none = some c
    cases op <;> cases c <;> decide
  | _ =>
    revert h
    cases c <;> exact nofun

theorem Expr.phrase_of_chain? {e : Expr} {c : Chain} (h : e.chain? = some c) :
    e.phrase = c.phrase := by
  cases e with
  | binary op left right =>
    show op.phrase = c.phrase
    rw [BinaryOp.phrase, show op.chain? = some c from h]
  | _ => simp [chain?] at h

theorem Expr.size_pos (e : Expr) : 0 < e.size := by
  cases e <;> simp only [size] <;> omega

/-- In writing the expression derives, on as many levels as its size asks for. -/
structure Readable (limit : Nat) (p : Position) (e : Expr) : Prop where
  phrase : ∀ level, level + 2 * e.size ≤ limit + 2 →
    Derives limit e.phrase level (tokensAt p e.lexemes) e
  chain : ∀ c, e.chain? = some c → ∀ level, level + 2 * e.size ≤ limit + 3 →
    ∃ further, further < e.size ∧ Chained limit c level further (tokensAt p e.lexemes) e

section Readable

variable {limit level : Nat} {p : Position} {e left right : Expr}

theorem Readable.expression (h : Readable limit p e) (hlevel : level + 2 * e.size ≤ limit + 1) :
    Derives limit .expression level (tokensAt p e.lexemes) e := by
  have hsize := e.size_pos
  by_cases hphrase : e.phrase = .expression
  · rw [← hphrase]
    exact h.phrase level (by omega)
  · refine (h.phrase (level + 1) (by omega)).toExpression (by omega) ?_
    rw [Nat.one_le_iff_ne_zero]
    intro hzero
    exact hphrase (Phrase.tightness_injective hzero)

/-- In parentheses, if it needs them, an expression derives in every place. -/
theorem Readable.enclosed (h : Readable limit p e) (place : Phrase) (level : Nat)
    (hlevel : level + 2 * e.size ≤ limit + 1) :
    Derives limit place level (tokensAt p (enclosed place e.phrase e.lexemes)) e := by
  unfold Lexeme.enclosed
  split
  · rename_i hloose
    have hfactor : Derives limit .factor level
        (tokensAt p (opening :: (e.lexemes ++ [closing]))) e := by
      rw [tokensAt_cons, tokensAt_append]
      exact .parentheses rfl (h.expression hlevel) rfl
    have hle : place.tightness ≤ Phrase.factor.tightness := by cases place <;> decide
    exact hfactor.loosen hle (by omega)
  · rename_i htight
    by_cases hplace : place = .expression
    · rw [hplace]
      exact h.expression hlevel
    · have hpositive : place.tightness ≠ 0 := by
        intro hzero
        exact hplace (Phrase.tightness_injective hzero)
      exact (h.phrase level (by omega)).loosen (by omega) (by omega)

/-- To the left of an operator an expression is the operands of a chain before the last one. -/
theorem Readable.operands (h : Readable limit p e) (c : Chain) (level : Nat)
    (hlevel : level + 2 * e.size ≤ limit + 1) :
    ∃ further, further < e.size ∧ Chained limit c level further
      (tokensAt p (Lexeme.enclosed c.phrase e.phrase e.lexemes)) e := by
  by_cases hchain : e.chain? = some c
  · have hbare : Lexeme.enclosed c.phrase e.phrase e.lexemes = e.lexemes := by
      rw [Lexeme.enclosed, Expr.phrase_of_chain? hchain, if_neg (Nat.lt_irrefl _)]
    rw [hbare]
    exact h.chain c hchain level (by omega)
  · -- Otherwise it is one operand, and in parentheses here exactly if it is there.
    have hoperand : Lexeme.enclosed c.phrase e.phrase e.lexemes =
        Lexeme.enclosed c.operand e.phrase e.lexemes := by
      have hne : e.phrase.tightness ≠ c.phrase.tightness := by
        intro heq
        exact hchain (Expr.chain?_of_phrase (Phrase.tightness_injective heq))
      have htightness := c.tightness_operand
      have hsame : e.phrase.tightness < c.phrase.tightness ↔
          e.phrase.tightness < c.operand.tightness := by omega
      simp only [Lexeme.enclosed, hsame]
    refine ⟨0, e.size_pos, .first ?_⟩
    rw [hoperand]
    exact h.enclosed c.operand level hlevel

/-- Items in writing derive if each of them does. -/
theorem items_of_readable {es : List Expr} (hne : es ≠ []) (h : ∀ e ∈ es, Readable limit p e)
    (hlevel : ∀ e ∈ es, level + 2 * e.size ≤ limit + 1) :
    Items limit level (tokensAt p (separated (es.map Expr.lexemes))) es := by
  induction es with
  | nil => exact absurd rfl hne
  | cons e es ih =>
    obtain ⟨he, hes⟩ := List.forall_mem_cons.mp h
    obtain ⟨helevel, heslevel⟩ := List.forall_mem_cons.mp hlevel
    have hfirst := he.expression helevel
    cases es with
    | nil => exact .one hfirst
    | cons e' es =>
      have hlater := ih (List.cons_ne_nil e' es) hes heslevel
      rw [List.map_cons, List.map_cons, separated, tokensAt_append, tokensAt_cons]
      · exact hlater.cons hfirst rfl
      · exact List.cons_ne_nil _ _

/-! ### One lemma for each kind of expression -/

/-- An expression that is no chain. -/
theorem readable_of_phrase (hchain : e.chain? = none)
    (h : ∀ level, level + 2 * e.size ≤ limit + 2 →
      Derives limit e.phrase level (tokensAt p e.lexemes) e) : Readable limit p e where
  phrase := h
  chain c hc := by
    rw [hchain] at hc
    simp at hc

theorem readable_identifier (name : String) : Readable limit p (.identifier name) :=
  readable_of_phrase rfl fun _ _ => .name rfl

theorem readable_string (body : String) : Readable limit p (.string body) :=
  readable_of_phrase rfl fun _ _ => .string rfl

theorem readable_number {value : Int} (h : Integer.Fits value) : Readable limit p (.number value) :=
  readable_of_phrase rfl fun _ _ => .number rfl (Integer.ofText?_text h)

theorem readable_call (name : String) {arguments : List Expr}
    (h : ∀ e ∈ arguments, Readable limit p e)
    (hsize : ∀ e ∈ arguments, e.size ≤ Expr.sizeOfAll arguments) :
    Readable limit p (.call name arguments) := by
  refine readable_of_phrase rfl ?_
  intro level hlevel
  rw [Expr.size] at hlevel
  show Derives limit .factor level (tokensAt p (Lexeme.name name :: opening ::
    (separated (Expr.lexemesOfAll arguments) ++ [closing]))) _
  rw [Expr.lexemesOfAll_eq_map, tokensAt_cons, tokensAt_cons, tokensAt_append]
  by_cases hempty : arguments = []
  · rw [hempty]
    exact .emptyCall rfl rfl rfl
  · have hitems : Items limit level (tokensAt p (separated (arguments.map Expr.lexemes)))
        arguments := by
      refine items_of_readable hempty h ?_
      intro e he
      have hle := hsize e he
      omega
    exact .call rfl rfl hitems rfl

/-- A chain is the chain to the left of its last operator and an operand. -/
theorem chained_binary {op : BinaryOp} {c : Chain} (hop : op.chain? = some c)
    (hleft : Readable limit p left) (hright : Readable limit p right) (level : Nat)
    (hlevel : level + 2 * (Expr.binary op left right).size ≤ limit + 3) :
    ∃ further, further < (Expr.binary op left right).size ∧
      Chained limit c level further (tokensAt p (Expr.binary op left right).lexemes)
        (.binary op left right) := by
  rw [Expr.size] at hlevel ⊢
  obtain ⟨further, hfurther, hchain⟩ := hleft.operands c level (by omega)
  have hplaces : op.leftPlace = c.phrase ∧ op.rightPlace = c.operand := by
    rw [BinaryOp.leftPlace, BinaryOp.rightPlace, hop]
    exact ⟨rfl, rfl⟩
  have hoperand := hright.enclosed c.operand (level + further + 1) (by omega)
  rw [Expr.lexemes, hplaces.1, hplaces.2, tokensAt_append, tokensAt_cons]
  exact ⟨further + 1, by omega, .further hchain (operator?_token hop) (by omega) hoperand⟩

theorem readable_chain {op : BinaryOp} {c : Chain} (hop : op.chain? = some c)
    (hleft : Readable limit p left) (hright : Readable limit p right) :
    Readable limit p (.binary op left right) where
  phrase level hlevel := by
    have hphrase : (Expr.binary op left right).phrase = c.phrase := Expr.phrase_of_chain? hop
    rw [hphrase]
    cases c with
    | disjunction =>
      have hsize : (Expr.binary op left right).size = 1 + left.size + right.size := by
        rw [Expr.size]
      have hpositive := left.size_pos
      obtain ⟨_, _, hchain⟩ := chained_binary hop hleft hright (level + 1) (by omega)
      exact .expression (by omega) hchain
    | conjunction =>
      obtain ⟨_, _, hchain⟩ := chained_binary hop hleft hright level (by omega)
      exact .disjunct hchain
    | comparison =>
      obtain ⟨_, _, hchain⟩ := chained_binary hop hleft hright level (by omega)
      exact .comparison hchain
    | sum =>
      obtain ⟨_, _, hchain⟩ := chained_binary hop hleft hright level (by omega)
      exact .comparable hchain
  chain c' hc' level hlevel := by
    obtain rfl : c = c' := Option.some.inj (hop.symm.trans hc')
    exact chained_binary hop hleft hright level hlevel

theorem readable_product {op : BinaryOp} (hop : op.chain? = none)
    (hleft : Readable limit p left) (hright : Readable limit p right) :
    Readable limit p (.binary op left right) := by
  refine readable_of_phrase hop ?_
  intro level hlevel
  have hpositive := left.size_pos
  rw [Expr.size] at hlevel
  have hplaces : op.phrase = .term ∧ op.leftPlace = .factor ∧ op.rightPlace = .term := by
    rw [BinaryOp.phrase, BinaryOp.leftPlace, BinaryOp.rightPlace, hop]
    exact ⟨rfl, rfl, rfl⟩
  rw [Expr.phrase, Expr.lexemes, hplaces.1, hplaces.2.1, hplaces.2.2, tokensAt_append,
    tokensAt_cons]
  exact .product (hleft.enclosed .factor level (by omega)) (product?_token hop) (by omega)
    (hright.enclosed .term (level + 1) (by omega))

theorem readable_unary (op : UnaryOp) (h : Readable limit p e) :
    Readable limit p (.unary op e) := by
  refine readable_of_phrase rfl ?_
  intro level hlevel
  have hpositive := e.size_pos
  rw [Expr.size] at hlevel
  have hoperand := h.enclosed op.phrase (level + 1) (by omega)
  rw [Expr.lexemes, tokensAt_cons]
  cases op with
  | not => exact .negation (keyword?_token .NOT) (by omega) hoperand
  | plus => exact .sign rfl rfl (by omega) hoperand
  | minus => exact .sign rfl rfl (by omega) hoperand

theorem readable_nullCheck (negated : Bool) (h : Readable limit p e) :
    Readable limit p (.nullCheck e negated) := by
  refine readable_of_phrase rfl ?_
  intro level hlevel
  rw [Expr.size] at hlevel
  have hoperand := h.enclosed .comparison level (by omega)
  rw [Expr.lexemes, tokensAt_append]
  cases negated with
  | true =>
    exact .isNotNull hoperand (keyword?_token .IS) (keyword?_token .NOT) (keyword?_token .NULL)
  | false => exact .isNull hoperand (keyword?_token .IS) (keyword?_token .NULL)

end Readable

namespace Expr

theorem size_le_sizeOfAll {e : Expr} {es : List Expr} (h : e ∈ es) : e.size ≤ sizeOfAll es := by
  induction es with
  | nil => simp at h
  | cons e' es ih =>
    rw [sizeOfAll]
    rcases List.mem_cons.mp h with rfl | h
    · omega
    · have hle := ih h
      omega

variable {limit : Nat} {p : Position}

mutual

/-- Every printable expression can be read in writing. -/
theorem readable : (e : Expr) → e.Printable → Readable limit p e
  | identifier name, _ => readable_identifier name
  | number _, h => readable_number ⟨Int.le_trans (by decide) h.1, h.2⟩
  | string body, _ => readable_string body
  | call name arguments, h =>
    readable_call name (readable_all arguments h.2) fun _ he => size_le_sizeOfAll he
  | binary op left right, h => by
    have hleft := readable left h.1
    have hright := readable right h.2
    cases hop : op.chain? with
    | some c => exact readable_chain hop hleft hright
    | none => exact readable_product hop hleft hright
  | unary op operand, h => readable_unary op (readable operand h)
  | nullCheck operand negated, h => readable_nullCheck negated (readable operand h)

theorem readable_all : (es : List Expr) → AllPrintable es → ∀ e ∈ es, Readable limit p e
  | [], _ => by simp
  | e :: es, h => List.forall_mem_cons.mpr ⟨readable e h.1, readable_all es h.2⟩

end

end Expr

/-! ## Statements -/

section Statements

variable {limit : Nat} {p : Position}

theorem name_token (n : String) : Name (tokensAt p [Lexeme.name n]) n :=
  .name rfl

/-- Names go on behind a first name. -/
theorem Grammar.Names.cons {comma : Token} {ts us : List Token} {n : String} {ns : List String}
    (h : Names us ns) (first : Name ts n) (hcomma : comma.kind = .comma) :
    Names (ts ++ comma :: us) (n :: ns) := by
  induction h with
  | one last => exact .more (.one first) hcomma last
  | more _ hcomma' last ih =>
    rw [← List.cons_append, ← List.cons_append, ← List.append_assoc]
    exact .more ih hcomma' last

theorem names_separated {ns : List String} (hne : ns ≠ []) :
    Names (tokensAt p (separated (ns.map fun n => [Lexeme.name n]))) ns := by
  induction ns with
  | nil => exact absurd rfl hne
  | cons n ns ih =>
    cases ns with
    | nil => exact .one (name_token n)
    | cons n' ns =>
      have hlater := ih (List.cons_ne_nil n' ns)
      rw [List.map_cons, List.map_cons, separated, tokensAt_append, tokensAt_cons]
      · exact hlater.cons (name_token n) rfl
      · exact List.cons_ne_nil _ _

theorem table_lexemes (t : TableName) : Table (tokensAt p t.lexemes) t := by
  obtain ⟨database, table⟩ := t
  cases database with
  | none => exact .plain (name_token table)
  | some database => exact .qualified (name_token database) rfl (name_token table)

theorem clause_lexemes {α : Type} (word : Keyword) (content : List Token → α → Prop)
    (lexemes : α → List Lexeme) {clause : Option α}
    (h : ∀ a ∈ clause, content (tokensAt p (lexemes a)) a) :
    Clause word content (tokensAt p (clauseLexemes word lexemes clause)) clause := by
  cases clause with
  | none => exact .absent
  | some a => exact .present (keyword?_token word) (h a rfl)

theorem tuple_lexemes {es : List Expr} (h : ∀ e ∈ es, Readable limit p e)
    (hsize : ∀ e ∈ es, 2 * e.size ≤ limit + 1) :
    Tuple limit 0 (tokensAt p (opening :: (separated (es.map Expr.lexemes) ++ [closing]))) es := by
  rw [tokensAt_cons, tokensAt_append]
  by_cases hempty : es = []
  · rw [hempty]
    exact .empty rfl rfl
  · have hlevels : ∀ e ∈ es, 0 + 2 * e.size ≤ limit + 1 := by simpa using hsize
    exact .items rfl (items_of_readable hempty h hlevels) rfl

/-- In writing a printable statement is a sentence that denotes it, on as many levels as its
expressions ask for. -/
theorem Statement.sentence {s : Statement} (h : s.Printable)
    (hsize : ∀ e ∈ s.expressions, 2 * e.size ≤ limit + 1) :
    Sentence limit (tokensAt p s.lexemes) s := by
  have hread : ∀ e ∈ s.expressions, Readable limit p e := fun e he =>
    e.readable (h.expressions e he)
  have hderives : ∀ e ∈ s.expressions, Derives limit .expression 0 (tokensAt p e.lexemes) e := by
    intro e he
    have hlevel := hsize e he
    exact (hread e he).expression (by omega)
  cases s with
  | use database => exact .use (keyword?_token .USE) (name_token database) rfl
  | select query =>
    simp only [expressions, List.forall_mem_append, Option.mem_toList] at hread hsize hderives
    have hlevels : ∀ e ∈ query.items, 0 + 2 * e.size ≤ limit + 1 := by simpa using hsize.1
    have hitems : Items limit 0 (tokensAt p (separated (query.items.map Expr.lexemes)))
        query.items := items_of_readable h.filled hread.1 hlevels
    have hsource := clause_lexemes (p := p) .FROM Table TableName.lexemes
      fun t (_ : t ∈ query.source) => table_lexemes t
    have hcondition := clause_lexemes .WHERE _ Expr.lexemes hderives.2.1
    have horder := clause_lexemes (p := p) .ORDER (Order limit)
      (fun e => Keyword.BY.lexeme :: e.lexemes)
      fun e (he : e ∈ query.order) => .order (keyword?_token .BY) (hderives.2.2 e he)
    simp only [lexemes, tokensAt_cons, tokensAt_append]
    exact .select (keyword?_token .SELECT) hitems hsource hcondition horder rfl
  | insert insertion =>
    have hcolumns := names_separated (p := p) h.filled
    have hvalues : Tuple limit 0 (tokensAt p (opening ::
        (separated (insertion.values.map Expr.lexemes) ++ [closing]))) insertion.values :=
      tuple_lexemes hread hsize
    simp only [lexemes, tokensAt_cons, tokensAt_append] at hvalues ⊢
    exact .insert (keyword?_token .INSERT) (keyword?_token .INTO) (table_lexemes _) rfl hcolumns
      rfl (keyword?_token .VALUES) hvalues rfl
  | delete deletion =>
    have hcondition := hderives _ (List.mem_singleton.mpr rfl)
    simp only [lexemes, tokensAt_cons, tokensAt_append]
    exact .delete (keyword?_token .DELETE) (keyword?_token .FROM) (table_lexemes _)
      (keyword?_token .WHERE) hcondition rfl

end Statements

end SqlForest
