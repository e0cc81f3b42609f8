import SqlForest.Proofs.Grammar.Completeness
import SqlForest.Proofs.Grammar.Levels
import SqlForest.Proofs.Printing.Derivation
import SqlForest.Proofs.Script.LineBreak

/-!
# Writing and reading back

The text of a printable statement is read into that statement, unless an expression of it would be
nested too deeply, and that is the only fault there can be (`Statement.readScript_sql`).  The text
is cut into the lexemes of the statement (`exists_ofText_spaced`), and these derive the statement on
enough levels (`Statement.sentence`).  On fewer levels it is read as well or refused for its depth
(`Rules.shallower_ofLevels`).
-/

namespace SqlForest

open Grammar

/-- Tokens with the lexemes of a statement are read into it, wherever they stand. -/
theorem Statement.read_of_toLexeme {limit : Nat} {s : Statement} {tokens : List Token}
    (h : s.Printable) (hsize : ∀ e ∈ s.expressions, 2 * e.size ≤ limit + 1)
    (hlexemes : tokens.map Token.toLexeme = s.lexemes) :
    Rule.statement (Rules.ofLevels limit) tokens = .ok (s, []) := by
  let p := Position.origin ""
  have hmoved : tokens.map (Token.move fun _ => p) = tokensAt p s.lexemes := by
    rw [← hlexemes, tokensAt, List.map_map]
    rfl
  have hread := (s.sentence (p := p) h hsize).read []
  rw [List.append_nil, ← hmoved, Rule.carries_move (fun _ => p) limit tokens] at hread
  cases hr : Rule.statement (Rules.ofLevels limit) tokens with
  | ok outcome =>
    obtain ⟨statement, rest⟩ := outcome
    rw [hr] at hread
    simp only [Rule.carried, Except.ok.injEq, Prod.mk.injEq, List.map_eq_nil_iff, id] at hread
    rw [hread.1, hread.2]
  | error failure =>
    rw [hr] at hread
    simp [Rule.carried] at hread

/-- A stream of one ended statement has one result. -/
theorem TokenStream.script_of_ended {s : TokenStream} (h : Ended s.tokens) :
    s.script = gather [s.outcome] := by
  rw [script_eq_gather_results, Session.results_eq_segments, h.segments]
  rfl

/-- What is read with its last token ends with its only semicolon. -/
theorem ended_of_read {limit : Nat} {tokens : List Token} {s : Statement}
    (h : Rule.statement (Rules.ofLevels limit) tokens = .ok (s, [])) : Ended tokens := by
  have hwhole := Rule.whole_statement (Rules.inner_ofLevels limit)
  obtain ⟨used, last, hused, hunended, hlast, -⟩ := hwhole.ends tokens s [] h
  exact ⟨used, last, hused, hunended, hlast⟩

namespace Statement

theorem exists_limit (s : Statement) :
    ∃ limit, maxDepth ≤ limit ∧ ∀ e ∈ s.expressions, 2 * e.size ≤ limit + 1 := by
  refine ⟨maxDepth + 2 * Expr.sizeOfAll s.expressions, by omega, ?_⟩
  intro e he
  have hle := Expr.size_le_sizeOfAll he
  omega

/-- A printable statement in writing is read back, or refused for its depth alone.  It is read back
if none of its expressions has 50 nodes or more. -/
theorem readScript_sql {s : Statement} (h : s.Printable) (source : String) :
    (readScript source s.sql = .ok [s] ∨
      ∃ position found, readScript source s.sql =
        .error [⟨position, .syntactic .nestedTooDeeply found⟩]) ∧
    ((∀ e ∈ s.expressions, e.size < 50) → readScript source s.sql = .ok [s]) := by
  obtain ⟨stream, htext, hlexemes⟩ := exists_ofText_spaced (spelled_lexemes h) source
  obtain ⟨limit, hlimit, hsize⟩ := s.exists_limit
  have hdeep := read_of_toLexeme h hsize hlexemes
  have hscript : readScript source s.sql = gather [stream.outcome] := by
    rw [readScript, sql, htext]
    exact TokenStream.script_of_ended (ended_of_read hdeep)
  have hok : Rule.statement Session.rules stream.tokens = .ok (s, []) →
      readScript source s.sql = .ok [s] := by
    intro hread
    rw [hscript, TokenStream.outcome, Session.outcome_of_ok hread]
    rfl
  refine ⟨?_, ?_⟩
  · have hlevels := Rule.shallower_statement (Rules.shallower_ofLevels hlimit)
    rcases hlevels stream.tokens with hsame | ⟨rest, hrefused⟩
    · exact Or.inl (hok (hsame.trans hdeep))
    · let found := rest.headD stream.finish
      refine Or.inr ⟨found.position, found.quoted, ?_⟩
      rw [hscript, TokenStream.outcome, Session.outcome_of_error hrefused]
      rfl
  · intro hsmall
    refine hok (read_of_toLexeme h ?_ hlexemes)
    intro e he
    have hlt := hsmall e he
    show 2 * e.size ≤ 100 + 1
    omega

/-- A difference that is taken from another name. -/
def difference : Statement :=
  select ⟨[.binary .subtract (.identifier "a") (.binary .subtract (.identifier "b") (.number 1))],
    none, none, none⟩

theorem readScript_difference :
    difference.Printable ∧ (∀ e ∈ difference.expressions, e.size < 50) ∧
      difference.sql = "SELECT a - ( b - 1 ) ;" ∧
      readScript "q" difference.sql = .ok [difference] := by
  have hname : ∀ n ∈ ["a", "b"], IsName n := by
    intro n hn
    simp only [List.mem_cons, List.not_mem_nil, or_false] at hn
    rcases hn with rfl | rfl
    · exact ⟨by decide, by decide, by decide⟩
    · exact ⟨by decide, by decide, by decide⟩
  have hprintable : difference.Printable := by
    refine ⟨nofun, ?_, List.cons_ne_nil _ _⟩
    intro e he
    rw [List.mem_singleton.mp he]
    exact ⟨hname "a" (by simp), hname "b" (by simp), by decide, by decide⟩
  have hsmall : ∀ e ∈ difference.expressions, e.size < 50 := by decide
  exact ⟨hprintable, hsmall, by decide, (readScript_sql hprintable "q").2 hsmall⟩

end Statement

end SqlForest
