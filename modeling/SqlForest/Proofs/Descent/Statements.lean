import SqlForest.Proofs.Descent.Phrases

/-!
# Statements in lockstep

`Routine.statement` starts the count of levels again, so from any parser it follows the rules for
statements (`Routine.follows_statement`).  Under the limit of the program it does what the rule of a
session does (`Routine.does_statement`).
-/

namespace SqlForest

open Grammar

namespace Routine

variable {limit level : Nat}

/-! ## Loops -/

section Loops

variable {σ β : Type} {loop : Loop σ β} {state further : σ} {p q : Parser}

theorem Loop.run_of_inl (h : loop.step state p = some (.ok (.inl further), q)) :
    loop.run state p = loop.run further q := by
  conv =>
    lhs
    rw [Loop.run.eq_def]
  rw [bind_apply, h]

theorem Loop.run_of_inr {result : β} (h : loop.step state p = some (.ok (.inr result), q)) :
    loop.run state p = some (.ok result, q) := by
  rw [Loop.run.eq_def, bind_apply, h]
  rfl

end Loops

theorem run_moreIdentifiers (read : List String) :
    moreIdentifiers.run read = (do
      if ← kind? .comma then
        let name ← identifier
        moreIdentifiers.run (name :: read)
      else pure read.reverse) := by
  conv =>
    lhs
    rw [Loop.run.eq_def, moreIdentifiers]
  rw [bind_assoc]
  refine bind_congr ?_
  intro comma
  cases comma with
  | true => exact bind_assoc _ _ _
  | false => exact pure_bind _ _

/-! ## Statements -/

theorem follows_identifier (h : level ≤ limit) :
    Follows limit level (· = level) identifier Rule.identifier Rule.identifier :=
  follows_kind (by decide) h

theorem follows_identifiers (h : level ≤ limit) :
    Follows limit level (· = level) identifiers (Rule.commaSeparated Rule.identifier)
      (Rule.commaSeparated Rule.identifier) := by
  rw [identifiers, Rule.commaSeparated_eq]
  refine (follows_identifier h).bind ?_
  rintro first reached rfl p hat hdepth
  exact lockstepAt_moreItems run_moreIdentifiers (follows_identifier h) hat hdepth (Nat.le_refl _)
    [first]

theorem follows_tableName (h : level ≤ limit) :
    Follows limit level (· = level) tableName Rule.tableName Rule.tableName := by
  refine (follows_identifier h).bind ?_
  rintro first reached rfl
  refine (follows_kind? (by decide)).bind ?_
  rintro qualified reached rfl
  cases qualified with
  | true => exact (follows_identifier h).bind fun table reached hlevel => follows_pure _ hlevel
  | false => exact follows_result _

theorem follows_clause? {α : Type} {word : Keyword} {content : Routine α} {rule rule' : Rule α}
    (h : Follows limit level (· = level) content rule rule') :
    Follows limit level (· = level) (clause? word content) (Rule.clause? word rule)
      (Rule.clause? word rule') := by
  refine (follows_keyword? word).bind ?_
  rintro present reached rfl
  cases present with
  | true => exact h.map
  | false => exact follows_result none

/-- A statement ends with its semicolon. -/
theorem follows_terminator {α : Type} (a : α) (h : level ≤ limit) :
    Follows limit level (· = level) (do
      let _ ← kind .semicolon
      pure a) (Rule.terminator >>= fun _ => pure a) (Rule.terminator >>= fun _ => pure a) := by
  rw [Rule.terminator_bind]
  exact (follows_kind (by decide) h).bind fun _ reached hlevel => follows_pure a hlevel

theorem follows_useStatement (h : level ≤ limit) :
    Follows limit level (· = level) useStatement (Rule.keyword .USE >>= fun _ => Rule.useBody)
      (Rule.keyword .USE >>= fun _ => Rule.useBody) := by
  refine (follows_keyword .USE h).bind ?_
  rintro _ reached rfl
  refine (follows_identifier h).bind ?_
  rintro database reached rfl
  exact follows_terminator _ h

section Bodies

variable {wide narrow : Rules}

theorem follows_order (h : Below limit level wide narrow) :
    Follows limit level (· = level) (do
      keyword .BY
      Phrase.expression.routine) (do
      Rule.keyword .BY
      Rule.expression wide) (do
      Rule.keyword .BY
      Rule.expression narrow) := by
  refine (follows_keyword .BY h.level_le).bind ?_
  rintro _ reached rfl
  exact follows_expression h

theorem follows_selectStatement (h : Below limit level wide narrow) :
    Follows limit level (· = level) selectStatement
      (Rule.keyword .SELECT >>= fun _ => Rule.selectBody wide)
      (Rule.keyword .SELECT >>= fun _ => Rule.selectBody narrow) := by
  refine (follows_keyword .SELECT h.level_le).bind ?_
  rintro _ reached rfl
  refine (follows_expressions h).bind ?_
  rintro items reached rfl
  refine (follows_clause? (follows_tableName h.level_le)).bind ?_
  rintro source reached rfl
  refine (follows_clause? (follows_expression h)).bind ?_
  rintro condition reached rfl
  refine (follows_clause? (follows_order h)).bind ?_
  rintro order reached rfl
  exact follows_terminator _ h.level_le

theorem follows_insertStatement (h : Below limit level wide narrow) :
    Follows limit level (· = level) insertStatement
      (Rule.keyword .INSERT >>= fun _ => Rule.insertBody wide)
      (Rule.keyword .INSERT >>= fun _ => Rule.insertBody narrow) := by
  refine (follows_keyword .INSERT h.level_le).bind ?_
  rintro _ reached rfl
  refine (follows_keyword .INTO h.level_le).bind ?_
  rintro _ reached rfl
  refine (follows_tableName h.level_le).bind ?_
  rintro table reached rfl
  refine (follows_kind (by decide) h.level_le).bind ?_
  rintro _ reached rfl
  refine (follows_identifiers h.level_le).bind ?_
  rintro columns reached rfl
  refine (follows_kind (by decide) h.level_le).bind ?_
  rintro _ reached rfl
  refine (follows_keyword .VALUES h.level_le).bind ?_
  rintro _ reached rfl
  refine (follows_tuple h).bind ?_
  rintro values reached rfl
  exact follows_terminator _ h.level_le

theorem follows_deleteStatement (h : Below limit level wide narrow) :
    Follows limit level (· = level) deleteStatement
      (Rule.keyword .DELETE >>= fun _ => Rule.deleteBody wide)
      (Rule.keyword .DELETE >>= fun _ => Rule.deleteBody narrow) := by
  refine (follows_keyword .DELETE h.level_le).bind ?_
  rintro _ reached rfl
  refine (follows_keyword .FROM h.level_le).bind ?_
  rintro _ reached rfl
  refine (follows_tableName h.level_le).bind ?_
  rintro table reached rfl
  refine (follows_keyword .WHERE h.level_le).bind ?_
  rintro _ reached rfl
  refine (follows_expression h).bind ?_
  rintro condition reached rfl
  exact follows_terminator _ h.level_le

/-- What a statement does once the count of levels has been started. -/
theorem lockstepAt_statementFrom (h : Below limit 0 wide narrow) {p : Parser} (hat : p.AtToken)
    (hdepth : p.depth = 0) :
    LockstepAt limit p (· = 0) (do
      let token ← peek
      if token.kind = TokenKind.keyword then
        match token.keyword? with
        | some .USE => useStatement
        | some .SELECT => selectStatement
        | some .INSERT => insertStatement
        | some .DELETE => deleteStatement
        | _ => refuse .unexpectedKeyword
      else refuse (.expected .statement)) (Rule.statement wide) (Rule.statement narrow) := by
  have hrefused : ∀ fault, LockstepAt limit p (· = 0) (refuse fault : Routine Statement)
      (Rule.fail fault) (Rule.fail fault) :=
    fun fault => follows_refuse fault h.level_le p hat hdepth
  have hrule : ∀ levels, Rule.statement levels p.rest =
      Rule.statementFrom levels p.rest.head? p.rest :=
    fun levels => Rule.statement_eq levels p.rest
  refine lockstepAt_peek hat (.of_eq ?_ (hrule wide) (hrule narrow))
  cases hrest : p.rest with
  | nil =>
    have hend : p.next.kind ≠ .keyword := by
      rw [(Parser.next_of_nil hrest).2]
      decide
    rw [if_neg hend]
    exact hrefused _
  | cons t rest =>
    rw [(Parser.next_of_cons hrest).1, List.head?_cons]
    by_cases hk : t.kind = .keyword
    · rw [if_pos hk]
      cases hw : t.keyword? with
      | none =>
        simp only [Rule.statementFrom, hw, if_pos hk]
        exact hrefused _
      | some word =>
        cases word with
        | USE =>
          simp only [Rule.statementFrom, hw]
          exact follows_useStatement h.level_le p hat hdepth
        | SELECT =>
          simp only [Rule.statementFrom, hw]
          exact follows_selectStatement h p hat hdepth
        | INSERT =>
          simp only [Rule.statementFrom, hw]
          exact follows_insertStatement h p hat hdepth
        | DELETE =>
          simp only [Rule.statementFrom, hw]
          exact follows_deleteStatement h p hat hdepth
        | _ =>
          simp only [Rule.statementFrom, hw, if_pos hk]
          exact hrefused _
    · have hw : t.keyword? = none := if_neg hk
      rw [if_neg hk]
      simp only [Rule.statementFrom, hw, if_neg hk]
      exact hrefused _

/-- The levels of a statement are counted from the first, whatever level has been reached. -/
theorem follows_statement (h : Below limit 0 wide narrow) :
    Follows limit level (· = 0) statement (Rule.statement wide) (Rule.statement narrow) := by
  intro p hat _
  have hrun := lockstepAt_statementFrom h (p := p.moved 0 0 []) hat rfl
  exact hrun.behind [] 0 [] rfl (List.forall_mem_nil _)

end Bodies

/-- A statement does what the rule for statements does, whatever level the parser is at. -/
theorem does_statement {p : Parser} (hat : p.AtToken) (h : p.limit = some maxDepth) :
    p.Does (· = 0) (Rule.statement Session.rules p.rest) (statement p) := by
  have hbelow : Below maxDepth 0 Session.rules Session.rules :=
    below_ofLevels_last (Nat.zero_add maxDepth)
  exact (follows_statement hbelow).agrees p hat h rfl

end Routine

end SqlForest
