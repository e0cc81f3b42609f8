import SqlForest.Proofs.Expr
import SqlForest.Proofs.Printing.Derivation
import SqlForest.Proofs.Script.Sentences

/-!
# How high a tree can be

A limit on levels is no limit of the same size on trees.  A chain is grouped to the left, so each
further operand puts one more node above all operands in front of it, and it is the first operand
that has all levels below it to itself.  Four kinds of chain share these levels, one inside the
other, and so the height of a tree grows with the square of the levels that are left
(`Phrase.greatestHeight`).

`Derives.height_le` proves the bound by induction on derivations, and `TokenStream.height_of_script`
states it of scripts.  A limit on levels is not itself such a bound: `Chained.repeated` derives
chains as long as the levels allow, and `TokenStream.script_twoChains` reads one of them
inside another.
-/

namespace SqlForest

namespace Expr

mutual

/-- The number of nodes on the longest way from the root to a leaf. -/
def height : Expr → Nat
  | identifier _ | number _ | string _ => 1
  | call _ arguments => heightOfAll arguments + 1
  | binary _ left right => max left.height right.height + 1
  | unary _ operand => operand.height + 1
  | nullCheck operand _ => operand.height + 1

/-- The height of the highest of some expressions. -/
def heightOfAll : List Expr → Nat
  | [] => 0
  | e :: es => max (height e) (heightOfAll es)

end

theorem heightOfAll_le {es : List Expr} {bound : Nat} :
    heightOfAll es ≤ bound ↔ ∀ e ∈ es, e.height ≤ bound := by
  induction es with
  | nil => simp [heightOfAll]
  | cons e es ih => rw [heightOfAll, Nat.max_le, ih, List.forall_mem_cons]

mutual

/-- The expression and everything that it is made of. -/
def parts : Expr → List Expr
  | identifier name => [identifier name]
  | number value => [number value]
  | string body => [string body]
  | call name arguments => call name arguments :: partsOfAll arguments
  | binary op left right => binary op left right :: (left.parts ++ right.parts)
  | unary op operand => unary op operand :: operand.parts
  | nullCheck operand negated => nullCheck operand negated :: operand.parts

/-- The parts of all of some expressions. -/
def partsOfAll : List Expr → List Expr
  | [] => []
  | e :: es => parts e ++ partsOfAll es

end

theorem mem_partsOfAll {part : Expr} {es : List Expr} (h : part ∈ partsOfAll es) :
    ∃ e ∈ es, part ∈ e.parts := by
  induction es with
  | nil => cases h
  | cons e es ih =>
    rcases List.mem_append.mp h with hfirst | hlater
    · exact ⟨e, List.mem_cons_self, hfirst⟩
    · obtain ⟨e', he', hpart⟩ := ih hlater
      exact ⟨e', List.mem_cons_of_mem e he', hpart⟩

/-- No part of an expression is higher than the expression. -/
theorem height_le_of_mem_parts {e part : Expr} (h : part ∈ e.parts) : part.height ≤ e.height := by
  induction e using Expr.induction with
  | identifier | number | string => exact Nat.le_of_eq (congrArg height (List.mem_singleton.mp h))
  | call name arguments ih =>
    rcases List.mem_cons.mp h with rfl | h
    · exact Nat.le_refl _
    · obtain ⟨e, he, hpart⟩ := mem_partsOfAll h
      have hbelow := ih e he hpart
      have hbound := heightOfAll_le.mp (Nat.le_refl (heightOfAll arguments)) e he
      rw [height]
      omega
  | binary op left right hleft hright =>
    rcases List.mem_cons.mp h with rfl | h
    · exact Nat.le_refl _
    · rw [height]
      rcases List.mem_append.mp h with h | h
      · have hbelow := hleft h
        omega
      · have hbelow := hright h
        omega
  | unary op operand ih =>
    rcases List.mem_cons.mp h with rfl | h
    · exact Nat.le_refl _
    · exact Nat.le_succ_of_le (ih h)
  | nullCheck operand negated ih =>
    rcases List.mem_cons.mp h with rfl | h
    · exact Nat.le_refl _
    · exact Nat.le_succ_of_le (ih h)

/-- The tree of a chain that joins a first operand with as many times the same further one. -/
def repeated (op : BinaryOp) (first further : Expr) : Nat → Expr
  | 0 => first
  | count + 1 => binary op (repeated op first further count) further

theorem height_repeated_ge (op : BinaryOp) (first further : Expr) (count : Nat) :
    first.height + count ≤ (repeated op first further count).height := by
  induction count with
  | zero => exact Nat.le_refl _
  | succ count ih =>
    rw [repeated, height]
    omega

end Expr

namespace Grammar

/-! ## The bound -/

/-- The greatest height of a phrase with a number of levels left below it. -/
def Phrase.greatestHeight : Phrase → (levels : Nat) → Nat
  | expression, 0 => 0
  | expression, m + 1 => 2 * (m * m) + 5 * m + 2
  | disjunct, m => 2 * (m * m) + 4 * m + 2
  | conjunct, m => 2 * (m * m) + 3 * m + 2
  | nullCheck, m => 2 * (m * m) + 3 * m + 2
  | comparison, m => 2 * (m * m) + 3 * m + 1
  | comparable, m => 2 * (m * m) + 2 * m + 1
  | term, m => 2 * (m * m) + m + 1
  | factor, m => max 1 (2 * (m * m) + m)

theorem Phrase.greatestHeight_mono (p : Phrase) {m n : Nat} (h : m ≤ n) :
    p.greatestHeight m ≤ p.greatestHeight n := by
  have hsquare : m * m ≤ n * n := Nat.mul_le_mul h h
  cases p with
  | expression =>
    cases m with
    | zero => exact Nat.zero_le _
    | succ m =>
      obtain ⟨n, rfl⟩ : ∃ k, n = k + 1 := ⟨n - 1, by omega⟩
      have hbelow : m * m ≤ n * n := Nat.mul_le_mul (by omega) (by omega)
      simp only [greatestHeight]
      omega
  | _ =>
    simp only [greatestHeight]
    omega

/-- With one more level the square grows by an odd number. -/
theorem square_succ (m : Nat) : (m + 1) * (m + 1) = m * m + 2 * m + 1 := by
  rw [Nat.succ_mul, Nat.mul_succ]
  omega

variable {limit : Nat}

/-- Above the limit there is a level to go to. -/
theorem exists_levels {level : Nat} (within : level < limit) :
    ∃ m, limit - level = m + 1 ∧ limit - (level + 1) = m :=
  ⟨limit - (level + 1), by omega, rfl⟩

/-- An expression can stand below one more node within a factor. -/
theorem greatestHeight_expression_lt (m : Nat) :
    Phrase.expression.greatestHeight m < Phrase.factor.greatestHeight m := by
  cases m with
  | zero => decide
  | succ m =>
    simp only [Phrase.greatestHeight, square_succ]
    omega

/-- The height of a chain and the number of its further operands. -/
structure ChainedWithin (limit : Nat) (c : Chain) (level further : Nat) (e : Expr) : Prop where
  further_le : further ≤ limit - level
  height_le : e.height ≤ c.operand.greatestHeight (limit - level) + further

/-- The last operand has fewer levels left than the first, so it is no higher than that may be. -/
theorem ChainedWithin.further {c : Chain} {level further : Nat} {op : BinaryOp} {l r : Expr}
    (h : ChainedWithin limit c level further l) (within : level + further < limit)
    (hright : r.height ≤ c.operand.greatestHeight (limit - (level + further + 1))) :
    ChainedWithin limit c level (further + 1) (.binary op l r) := by
  have hmono : c.operand.greatestHeight (limit - (level + further + 1)) ≤
      c.operand.greatestHeight (limit - level) := Phrase.greatestHeight_mono _ (by omega)
  have hleft := h.height_le
  refine ⟨by omega, ?_⟩
  rw [Expr.height]
  omega

/-! ## Derivations -/

mutual

theorem Derives.height_le {p : Phrase} {level : Nat} {ts : List Token} {e : Expr} :
    Derives limit p level ts e → e.height ≤ p.greatestHeight (limit - level)
  | .expression within chain => by
    obtain ⟨hfurther, hheight⟩ := chain.within
    obtain ⟨m, hm, hbelow⟩ := exists_levels within
    rw [hbelow] at hfurther hheight
    rw [hm]
    simp only [Chain.operand, Phrase.greatestHeight] at hheight ⊢
    omega
  | .disjunct chain => by
    obtain ⟨hfurther, hheight⟩ := chain.within
    simp only [Chain.operand, Phrase.greatestHeight] at hheight ⊢
    omega
  | .negation _ within operand => by
    have hheight := operand.height_le
    obtain ⟨m, hm, hbelow⟩ := exists_levels within
    rw [hbelow] at hheight
    rw [hm, Expr.height]
    simp only [Phrase.greatestHeight, square_succ] at hheight ⊢
    omega
  | .conjunct check => check.height_le
  | .isNull operand _ _ => by
    have hheight := operand.height_le
    rw [Expr.height]
    simp only [Phrase.greatestHeight] at hheight ⊢
    omega
  | .isNotNull operand _ _ _ => by
    have hheight := operand.height_le
    rw [Expr.height]
    simp only [Phrase.greatestHeight] at hheight ⊢
    omega
  | .nullCheck operand => by
    have hheight := operand.height_le
    simp only [Phrase.greatestHeight] at hheight ⊢
    omega
  | .comparison chain => by
    obtain ⟨hfurther, hheight⟩ := chain.within
    simp only [Chain.operand, Phrase.greatestHeight] at hheight ⊢
    omega
  | .comparable chain => by
    obtain ⟨hfurther, hheight⟩ := chain.within
    simp only [Chain.operand, Phrase.greatestHeight] at hheight ⊢
    omega
  | .product left _ within right => by
    have hleft := left.height_le
    have hright := right.height_le
    obtain ⟨m, hm, hbelow⟩ := exists_levels within
    rw [hm] at hleft
    rw [hbelow] at hright
    rw [hm, Expr.height]
    simp only [Phrase.greatestHeight, square_succ] at hleft hright ⊢
    omega
  | .term factor => by
    have hheight := factor.height_le
    simp only [Phrase.greatestHeight] at hheight ⊢
    omega
  | .name _ | .number _ _ | .string _ => by
    simp only [Expr.height, Phrase.greatestHeight]
    omega
  | .emptyCall _ _ _ => by
    simp only [Expr.height, Expr.heightOfAll, Phrase.greatestHeight]
    omega
  | .call _ _ items _ => by
    have hheight := Expr.heightOfAll_le.mpr items.height_le
    have hlt := greatestHeight_expression_lt (limit - level)
    rw [Expr.height]
    omega
  | .parentheses _ inner _ => by
    have hheight := inner.height_le
    have hlt := greatestHeight_expression_lt (limit - level)
    omega
  | .sign _ _ within operand => by
    have hheight := operand.height_le
    obtain ⟨m, hm, hbelow⟩ := exists_levels within
    rw [hbelow] at hheight
    rw [hm, Expr.height]
    simp only [Phrase.greatestHeight, square_succ] at hheight ⊢
    omega

theorem Chained.within {c : Chain} {level further : Nat} {ts : List Token} {e : Expr} :
    Chained limit c level further ts e → ChainedWithin limit c level further e
  | .first operand => ⟨Nat.zero_le _, operand.height_le⟩
  | .further left _ within right => left.within.further within right.height_le

theorem Items.height_le {level : Nat} {ts : List Token} {es : List Expr} :
    Items limit level ts es → ∀ e ∈ es, e.height ≤ Phrase.expression.greatestHeight (limit - level)
  | .one item => List.forall_mem_singleton.mpr item.height_le
  | .more items _ item =>
    List.forall_mem_append.mpr ⟨items.height_le, List.forall_mem_singleton.mpr item.height_le⟩

end

/-- No expression of a statement is higher than an expression may be with all levels left. -/
theorem Sentence.height_le {ts : List Token} {s : Statement} (h : Sentence limit ts s) :
    ∀ e ∈ s.expressions, e.height ≤ Phrase.expression.greatestHeight limit := by
  cases h with
  | use => exact nofun
  | select _ hitems _ hcondition horder _ =>
    refine List.forall_mem_append.mpr ⟨hitems.height_le, List.forall_mem_append.mpr ⟨?_, ?_⟩⟩
    · cases hcondition with
      | absent => exact nofun
      | present _ h => exact List.forall_mem_singleton.mpr h.height_le
    · cases horder with
      | absent => exact nofun
      | present _ h =>
        obtain ⟨_, h⟩ := h
        exact List.forall_mem_singleton.mpr h.height_le
  | insert _ _ _ _ _ _ _ hvalues _ =>
    cases hvalues with
    | empty => exact nofun
    | items _ items _ => exact items.height_le
  | delete _ _ _ _ hcondition _ => exact List.forall_mem_singleton.mpr hcondition.height_le

theorem Sentences.height_le {ts : List Token} {forest : List Statement}
    (h : Sentences limit ts forest) :
    ∀ s ∈ forest, ∀ e ∈ s.expressions, e.height ≤ Phrase.expression.greatestHeight limit := by
  induction h with
  | nil => exact nofun
  | cons first _ ih => exact List.forall_mem_cons.mpr ⟨first.height_le, ih⟩

/-! ## Chains as long as the levels allow -/

theorem Chained.repeated {c : Chain} {level : Nat} {joint : Token} {op : BinaryOp}
    {ts us : List Token} {first further : Expr} (hfirst : Derives limit c.operand level ts first)
    (hop : c.operator? joint = some op)
    (hfurther : ∀ level, Derives limit c.operand level us further) (count : Nat)
    (hcount : level + count ≤ limit) :
    Chained limit c level count (ts ++ (List.replicate count (joint :: us)).flatten)
      (.repeated op first further count) := by
  induction count with
  | zero =>
    rw [List.replicate_zero, List.flatten_nil, List.append_nil]
    exact .first hfirst
  | succ count ih =>
    have hlonger := (ih (by omega)).further hop (by omega) (hfurther _)
    rwa [List.append_assoc, ← List.flatten_concat, ← List.replicate_succ'] at hlonger

end Grammar

theorem Without.replicate {k : TokenKind} {tokens : List Token} (h : Without k tokens)
    (count : Nat) : Without k (List.replicate count tokens).flatten := by
  induction count with
  | zero => exact without_nil k
  | succ count ih =>
    rw [List.replicate_succ, List.flatten_cons]
    exact h.append ih

open Grammar Rule

namespace TokenStream

/-- `SELECT x AND x … AND x OR x … OR x;` with as many further operands of either kind. -/
def twoChains (count : Nat) : TokenStream where
  tokens := sampleOfKeyword .SELECT ::
    ([sampleOfKind .identifier] ++
      (List.replicate count [sampleOfKeyword .AND, sampleOfKind .identifier]).flatten ++
      (List.replicate count [sampleOfKeyword .OR, sampleOfKind .identifier]).flatten ++
        [sampleOfKind .semicolon])
  finish := sampleOfKind .endOfInput
  kind_ne_endOfInput := by
    have hname : Without .endOfInput [sampleOfKind .identifier] := (without_nil _).cons nofun
    have hfurther : ∀ k, Without .endOfInput [sampleOfKeyword k, sampleOfKind .identifier] :=
      fun k => hname.cons nofun
    have hlast : Without .endOfInput [sampleOfKind .semicolon] := (without_nil _).cons nofun
    have hchains := (hname.append ((hfurther .AND).replicate count)).append
      ((hfurther .OR).replicate count)
    exact (hchains.append hlast).cons nofun
  finish_kind := rfl

/-- The first chain is the first operand of the second one, and behind it the second has all of its
levels. -/
theorem script_twoChains {count : Nat} (h : count < maxDepth) :
    (twoChains count).script = .ok [.select ⟨[.repeated .or
      (.repeated .and (.identifier "") (.identifier "") count) (.identifier "") count],
      none, none, none⟩] := by
  have hname : ∀ level (p : Phrase), 1 ≤ p.tightness →
      Derives maxDepth p level [sampleOfKind .identifier] (.identifier "") := by
    intro level p hp
    have hfactor : Derives maxDepth .factor level [sampleOfKind .identifier] (.identifier "") :=
      .name rfl
    exact hfactor.loosen (by cases p <;> decide) hp
  have handOp : Chain.conjunction.operator? (sampleOfKeyword .AND) = some .and := by decide
  have horOp : Chain.disjunction.operator? (sampleOfKeyword .OR) = some .or := by decide
  have hlast : (sampleOfKind .semicolon).kind = .semicolon := rfl
  have hand : Chained maxDepth .conjunction 1 count _ _ :=
    .repeated (hname 1 _ (by decide)) handOp (fun level => hname level _ (by decide)) count
      (by omega)
  have hor : Chained maxDepth .disjunction 1 count _ _ :=
    .repeated (.disjunct hand) horOp (fun level => hname level _ (by decide)) count (by omega)
  have hsentence : Sentence maxDepth (twoChains count).tokens _ :=
    .select (keyword?_sampleOfKeyword .SELECT) (.one (.expression (by decide) hor)) .absent .absent
      .absent hlast
  have hreadings := allReadings_of_sentences (.cons hsentence .nil)
  rw [List.append_nil] at hreadings
  have hscript : (twoChains count).script = gather (Session.ofStream (twoChains count)).results :=
    Session.script_eq_gather _
  rw [hscript, gather_eq_ok, Session.results_eq_map_ok]
  exact hreadings

/-- No part of any expression of a script is higher than a bound that is quadratic in the number of
levels, and the number of levels is no such bound. -/
theorem height_of_script :
    (∀ (s : TokenStream) (statements : List Statement), s.script = .ok statements →
      ∀ statement ∈ statements, ∀ e ∈ statement.expressions, ∀ part ∈ e.parts,
        part.height ≤ 2 * (maxDepth - 1) * (maxDepth - 1) + 5 * (maxDepth - 1) + 2) ∧
    2 * (maxDepth - 1) * (maxDepth - 1) + 5 * (maxDepth - 1) + 2 = 20099 ∧
    ∃ (s : TokenStream) (statement : Statement), s.script = .ok [statement] ∧
      ∃ e ∈ statement.expressions, maxDepth < e.height := by
  refine ⟨?_, by decide, ?_⟩
  · intro s statements hscript statement hstatement e he part hpart
    have hgather : gather (Session.ofStream s).results = .ok statements := by
      rw [← Session.script_eq_gather]
      exact hscript
    have hsentences : Sentences maxDepth s.tokens statements :=
      sentences_of_allReadings (Session.results_eq_map_ok.mp (gather_eq_ok.mp hgather))
    exact Nat.le_trans (Expr.height_le_of_mem_parts hpart)
      (hsentences.height_le statement hstatement e he)
  · refine ⟨twoChains 99, _, script_twoChains (by decide), _, List.mem_cons_self, ?_⟩
    have hinner := Expr.height_repeated_ge .and (.identifier "") (.identifier "") 99
    have houter := Expr.height_repeated_ge .or
      (.repeated .and (.identifier "") (.identifier "") 99) (.identifier "") 99
    have hdepth : maxDepth = 100 := rfl
    omega

end TokenStream

end SqlForest
