import SqlForest.Proofs.Grammar.Naturality
import SqlForest.Proofs.Script.Segments
import SqlForest.Proofs.Token.LineBreak

/-!
# Scripts on consecutive lines

A text whose last statement is ended by a semicolon has no influence on the text below it, but that
it moves it down (`readScript_newline`).  Two facts make this so.  Behind an ended statement a
session goes on as from its start (`Session.results_above`), and moved tokens have the same results,
reported where they have been moved to (`Session.results_move`).
-/

namespace SqlForest

/-! ## Readings of changed tokens -/

section Readings

variable {α β : Type} {f : Token → Token} {g : α → β} {rule : Rule α} {rule' : Rule β}

/-- The result of a reading of changed tokens. -/
def recast (f : Token → Token) (g : α → β) : Except Failure α → Except Failure β
  | .ok a => .ok (g a)
  | .error failure => .error (failure.map f)

theorem afterSemicolon_map (hf : ∀ t, (f t).kind = t.kind) (tokens : List Token) :
    afterSemicolon (tokens.map f) = (afterSemicolon tokens).map f := by
  induction tokens with
  | nil => rfl
  | cons t tokens ih =>
    rw [List.map_cons, afterSemicolon, afterSemicolon, hf t, ih]
    split
    · rfl
    · rfl

theorem readings_map (hf : ∀ t, (f t).kind = t.kind) (h : rule.Carries f g rule')
    (budget tokens : List Token) :
    readings rule' (budget.map f) (tokens.map f) =
      (readings rule budget tokens).map (recast f g) := by
  induction budget generalizing tokens with
  | nil => rfl
  | cons b budget ih =>
    cases tokens with
    | nil => rfl
    | cons t tokens =>
      have hfirst := h (t :: tokens)
      rw [List.map_cons] at hfirst
      cases hr : rule (t :: tokens) with
      | ok outcome =>
        rw [hr] at hfirst
        simp only [List.map_cons, readings, hfirst, hr, Rule.carried, ih outcome.2]
        rfl
      | error failure =>
        rw [hr] at hfirst
        simp only [List.map_cons, readings, hfirst, hr, Rule.carried, Failure.map,
          afterSemicolon_map hf, ih]
        rfl

end Readings

/-! ## Moved sessions -/

/-- Moving tokens changes no name. -/
theorem Token.renames_move (f : Position → Position) : Renames (move f) id where
  kind _ := rfl
  name _ _ := rfl
  lexeme _ _ := rfl

/-- A rule for statements reads moved tokens as it reads them where they are. -/
theorem Rule.carries_move (f : Position → Position) (levels : Nat) :
    Carries (Token.move f) id (statement (Rules.ofLevels levels))
      (statement (Rules.ofLevels levels)) := by
  have hf := Token.renames_move f
  have h := carries_statement hf (Rules.natural_ofLevels hf levels)
  rwa [funext Statement.rename_id] at h

theorem Failure.diagnostic_move (f : Position → Position) (failure : Failure) (finish : Token) :
    (failure.map (Token.move f)).diagnostic (finish.move f) =
      (failure.diagnostic finish).move f := by
  obtain ⟨rest, fault⟩ := failure
  cases rest with
  | nil => rfl
  | cons t rest => rfl

namespace Session

/-- A session of moved tokens has the same results, reported where the tokens are. -/
theorem results_move (f : Position → Position) (tokens : List Token) (finish : Token) :
    results ⟨tokens.map (Token.move f), finish.move f⟩ =
      (results ⟨tokens, finish⟩).map (Except.mapError (Diagnostic.move f)) := by
  have hreadings := readings_map (Token.renames_move f).kind (Rule.carries_move f maxDepth)
    tokens tokens
  unfold results allReadings
  rw [rules, hreadings, List.map_map, List.map_map]
  apply List.map_congr_left
  intro result _
  cases result with
  | ok statement => rfl
  | error failure => exact congrArg Except.error (failure.diagnostic_move f finish)

/-! ## Behind ended statements -/

/-- The end of input is no part of an ended segment, so its outcome does not depend on it. -/
theorem outcome_of_ended {tokens : List Token} (h : Ended tokens) (finish finish' : Token) :
    outcome ⟨tokens, finish⟩ = outcome ⟨tokens, finish'⟩ := by
  obtain ⟨body, last, rfl, hbody, hlast⟩ := h
  rcases whole_statement.segment hbody hlast with
    ⟨statement, h⟩ | ⟨used, left, fault, rfl, h⟩
  · rw [outcome_of_ok (h []), outcome_of_ok (h [])]
  · rw [outcome_of_error (h []), outcome_of_error (h [])]
    cases left with
    | nil => rfl
    | cons t left => rfl

/-- Behind statements that are all ended a session goes on as from its start. -/
theorem results_above {tokens : List Token} (h : ∀ t ∈ tokens.getLast?, t.kind = .semicolon)
    (finish finish' : Token) (more : List Token) :
    results ⟨tokens ++ more, finish'⟩ =
      results ⟨tokens, finish⟩ ++ results ⟨more, finish'⟩ := by
  induction tokens using segment_induction with
  | nil => rfl
  | unended tokens hne hun =>
    have hkind := h _ (List.getLast_mem_getLast? hne)
    exact absurd hkind (hun _ (List.getLast_mem hne))
  | ended body last rest hbody hlast ih =>
    have hrest : ∀ t ∈ rest.getLast?, t.kind = .semicolon := by
      intro t ht
      apply h
      rw [Option.mem_def] at ht ⊢
      rw [List.getLast?_append, List.getLast?_cons, ht]
      rfl
    have hended : Ended (body ++ [last]) := ⟨body, last, rfl, hbody, hlast⟩
    rw [List.append_assoc, List.cons_append, results_append hbody hlast,
      results_append hbody hlast, ih hrest, outcome_of_ended hended finish' finish]
    rfl

end Session

/-! ## Scripts -/

namespace TokenStream

theorem script_eq_gather_results (s : TokenStream) :
    s.script = gather (Session.results ⟨s.tokens, s.finish⟩) :=
  Session.script_eq_gather (Session.ofStream s)

theorem diagnosticsOf_gather (results : List (Except Diagnostic Statement)) :
    diagnosticsOf (gather results) = results.filterMap errorOf? := by
  cases h : gather results with
  | ok statements =>
    rw [gather_eq_ok.mp h]
    exact (filterMap_errorOf?_eq_nil.mpr ⟨statements, rfl⟩).symm
  | error ds => exact (gather_eq_error.mp h).2.symm

/-- What is gathered from two lists. -/
theorem gather_append (results results' : List (Except Diagnostic Statement)) :
    gather (results ++ results') =
      match gather results, gather results' with
      | .ok statements, .ok statements' => .ok (statements ++ statements')
      | r, r' => .error (diagnosticsOf r ++ diagnosticsOf r') := by
  have herrors : (results ++ results').filterMap errorOf? =
      results.filterMap errorOf? ++ results'.filterMap errorOf? := List.filterMap_append
  rw [← diagnosticsOf_gather results, ← diagnosticsOf_gather results'] at herrors
  cases h : gather results with
  | ok statements =>
    cases h' : gather results' with
    | ok statements' =>
      rw [gather_eq_ok.mp h, gather_eq_ok.mp h', ← List.map_append]
      exact gather_eq_ok.mpr rfl
    | error ds =>
      rw [h, h'] at herrors
      refine gather_eq_error.mpr ⟨?_, herrors⟩
      exact (gather_eq_error.mp h').1
  | error ds =>
    rw [h] at herrors
    refine gather_eq_error.mpr ⟨?_, herrors⟩
    exact List.append_ne_nil_of_left_ne_nil (gather_eq_error.mp h).1 _

/-- The script of two texts on consecutive lines, of which the first is ended. -/
theorem script_above {s : TokenStream} (h : ∀ t ∈ s.tokens.getLast?, t.kind = .semicolon)
    (t : TokenStream) (lines : Nat) :
    (s.above t lines).script =
      match s.script, t.script with
      | .ok statements, .ok statements' => .ok (statements ++ statements')
      | r, r' => .error (diagnosticsOf r ++
          (diagnosticsOf r').map (Diagnostic.move (Position.down lines))) := by
  have hresults : Session.results ⟨(s.above t lines).tokens, (s.above t lines).finish⟩ =
      Session.results ⟨s.tokens, s.finish⟩ ++ (Session.results ⟨t.tokens, t.finish⟩).map
        (Except.mapError (Diagnostic.move (Position.down lines))) := by
    rw [← Session.results_move]
    exact Session.results_above h s.finish _ _
  rw [script_eq_gather_results, hresults, gather_append, gather_mapError,
    ← script_eq_gather_results, ← script_eq_gather_results]
  cases s.script with
  | ok statements =>
    cases t.script with
    | ok statements' => rfl
    | error ds => rfl
  | error ds =>
    cases t.script with
    | ok statements' => rfl
    | error ds' => rfl

end TokenStream

/-- A text that is ended by a semicolon and the text on the lines below it are read as each of them
is read by itself, but that everything about the second is reported where it stands.  If the second
is not cut into tokens, only its lexical faults are reported. -/
theorem readScript_newline {source a : String} {s : TokenStream}
    (ha : TokenStream.ofText source a = .ok s)
    (hended : ∀ t ∈ s.tokens.getLast?, t.kind = .semicolon) (b : String) :
    readScript source (a ++ "\n" ++ b) =
      match TokenStream.ofText source b with
      | .error ds => .error (ds.map (Diagnostic.move (Position.down (linesOf a))))
      | .ok _ =>
        match readScript source a, readScript source b with
        | .ok statements, .ok statements' => .ok (statements ++ statements')
        | r, r' => .error (TokenStream.diagnosticsOf r ++
            (TokenStream.diagnosticsOf r').map (Diagnostic.move (Position.down (linesOf a)))) := by
  cases hb : TokenStream.ofText source b with
  | error ds =>
    have htext := TokenStream.ofText_newline_of_faults (a := a)
      (Or.inr (TokenStream.faults_ne_nil hb))
    rw [readScript, htext, ha, hb]
    rfl
  | ok t =>
    have hreads : ∀ {text : String} {stream : TokenStream},
        TokenStream.ofText source text = .ok stream →
          readScript source text = stream.script := by
      intro text stream h
      rw [readScript, h]
    rw [hreads (TokenStream.ofText_above ha hb), hreads ha, hreads hb]
    exact TokenStream.script_above hended t (linesOf a)

/-- A fault above and one below. -/
theorem readScript_newline_faults :
    ∃ s, TokenStream.ofText "f" "USE 1;" = .ok s ∧
      (∀ t ∈ s.tokens.getLast?, t.kind = .semicolon) ∧
      readScript "f" ("USE 1;" ++ "\n" ++ "USE x; DELETE;") =
        .error [⟨⟨"f", 1, 5⟩, .syntactic (.expected (.kind .identifier)) (.lexeme "1")⟩,
          ⟨⟨"f", 2, 14⟩, .syntactic (.expected (.keyword .FROM)) (.lexeme ";")⟩] := by
  have ha : ∃ s, TokenStream.ofText "f" "USE 1;" = .ok s ∧
      ∀ t ∈ s.tokens.getLast?, t.kind = .semicolon := by
    refine ⟨⟨[⟨.keyword, "USE", ⟨"f", 1, 1⟩⟩, ⟨.number, "1", ⟨"f", 1, 5⟩⟩,
      ⟨.semicolon, ";", ⟨"f", 1, 6⟩⟩], ⟨.endOfInput, "", ⟨"f", 1, 7⟩⟩, by decide, rfl⟩, ?_, ?_⟩
    · rfl
    · decide
  obtain ⟨s, hs, hended⟩ := ha
  refine ⟨s, hs, hended, (readScript_newline hs hended "USE x; DELETE;").trans ?_⟩
  rfl

end SqlForest
