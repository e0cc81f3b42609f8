import SqlForest.Proofs.Grammar.Tokens
import SqlForest.Proofs.Script.Sentences

/-!
# A failed statement is reported at the first token that does not fit

Where a statement fails, what has been read is the beginning of a statement, and no statement
begins with that and the reported token (`TokenStream.fault_at_first_misfit`).  The first half is
what `Follows` says of the rule for statements.  The second half is one token of lookahead: the rule
fails alike whatever stands behind the token at which it fails.  The end of input is no token of any
statement, so no statement goes on behind it.
-/

namespace SqlForest

open Grammar

/-- The tokens are read as one statement to the last of them. -/
def Accepted (tokens : List Token) : Prop :=
  ∃ statement, Rule.statement Session.rules tokens = .ok (statement, [])

theorem accepted_iff_sentence {tokens : List Token} :
    Accepted tokens ↔ ∃ statement, Sentence maxDepth tokens statement := by
  constructor
  · rintro ⟨statement, h⟩
    obtain ⟨used, hused, hsentence⟩ := statement_eq_ok.mp h
    rw [List.append_nil] at hused
    rw [hused]
    exact ⟨statement, hsentence⟩
  · rintro ⟨statement, h⟩
    refine ⟨statement, statement_eq_ok.mpr ⟨tokens, ?_, h⟩⟩
    rw [List.append_nil]

/-! ## What has been read before a failure -/

section Failure

variable {tokens used : List Token} {failure : Failure}

/-- Some tokens complete what has been read. -/
theorem exists_accepted (h : Rule.statement Session.rules tokens = .error failure)
    (hused : tokens = used ++ failure.rest) (hfault : failure.fault ≠ .nestedTooDeeply) :
    ∃ more, WithoutEnd more ∧ Accepted (used ++ more) := by
  obtain ⟨used', more, statement, hused', hsentence⟩ :=
    Session.leads_statement.fails tokens failure h hfault
  obtain rfl : used = used' := List.append_cancel_right (hused.symm.trans hused')
  refine ⟨more, ?_, accepted_iff_sentence.mpr ⟨statement, hsentence⟩⟩
  intro t ht
  exact hsentence.withoutEnd t (List.mem_append_right used ht)

/-- No tokens complete what has been read and the token that does not fit. -/
theorem not_accepted (h : Rule.statement Session.rules tokens = .error failure)
    (hused : tokens = used ++ failure.rest) {finish : Token} (hfinish : finish.kind = .endOfInput)
    (more : List Token) : ¬ Accepted (used ++ failure.rest.headD finish :: more) := by
  intro haccepted
  cases hrest : failure.rest with
  | nil =>
    rw [hrest, List.headD_nil] at haccepted
    obtain ⟨statement, hsentence⟩ := accepted_iff_sentence.mp haccepted
    have hmem : finish ∈ used ++ finish :: more := List.mem_append_right used List.mem_cons_self
    exact hsentence.withoutEnd finish hmem hfinish
  | cons t rest =>
    rw [hrest, List.headD_cons] at haccepted
    obtain ⟨used', hused', -, hagain⟩ := Session.whole_statement.fails tokens failure h
    obtain rfl : used = used' := List.append_cancel_right (hused.symm.trans hused')
    have hhead : (t :: more).head? = failure.rest.head? := by rw [hrest]; rfl
    obtain ⟨statement, hread⟩ := haccepted
    rw [hagain (t :: more) hhead] at hread
    simp at hread

end Failure

/-! ## Where a statement of a stream fails -/

/-- Unless an expression is nested too deeply, the statement from token `c` on is reported at the
token `i` such that the tokens in front of it can be completed to a statement, and those up to and
including it cannot. -/
theorem TokenStream.fault_at_first_misfit (s : TokenStream) {c : Nat} (hc : c ≤ s.tokens.length)
    {d : Diagnostic} {after : Session}
    (h : Session.statement ⟨s.tokens.drop c, s.finish⟩ = (.error d, after))
    (hfault : ∀ found, d.fault ≠ .syntactic .nestedTooDeeply found) :
    ∃ i t, c ≤ i ∧ after.rest = s.tokens.drop i ∧ s.toList[i]? = some t ∧
      d.position = t.position ∧
      (∃ more, WithoutEnd more ∧ Accepted ((s.toList.drop c).take (i - c) ++ more)) ∧
      ∀ more, ¬ Accepted ((s.toList.drop c).take (i + 1 - c) ++ more) := by
  unfold Session.statement at h
  cases hr : Rule.statement Session.rules (s.tokens.drop c) with
  | ok outcome =>
    simp only [hr] at h
    simp at h
  | error failure =>
    simp only [hr, Prod.mk.injEq, Except.error.injEq] at h
    obtain ⟨rfl, rfl⟩ := h
    obtain ⟨used, hused, -⟩ := Session.whole_statement.fails _ failure hr
    have hlevel : failure.fault ≠ .nestedTooDeeply := by
      intro heq
      apply hfault (failure.rest.headD s.finish).quoted
      show Fault.syntactic failure.fault _ = _
      rw [heq]
    -- The tokens from `c` on are what has been read, the token that does not fit, and others.
    obtain ⟨behind, hbehind⟩ : ∃ behind,
        failure.rest ++ [s.finish] = failure.rest.headD s.finish :: behind := by
      cases failure.rest with
      | nil => exact ⟨[], rfl⟩
      | cons t rest => exact ⟨rest ++ [s.finish], rfl⟩
    have hlist : s.toList.drop c = used ++ ([failure.rest.headD s.finish] ++ behind) := by
      unfold toList
      rw [List.drop_append_of_le_length hc, hused, List.append_assoc, hbehind]
      rfl
    have hbefore : (s.toList.drop c).take (c + used.length - c) = used := by
      rw [hlist, Nat.add_sub_cancel_left]
      exact List.take_left
    have huntil : (s.toList.drop c).take (c + used.length + 1 - c) =
        used ++ [failure.rest.headD s.finish] := by
      have hcount : c + used.length + 1 - c = (used ++ [failure.rest.headD s.finish]).length := by
        simp only [List.length_append, List.length_singleton]
        omega
      rw [hlist, hcount, ← List.append_assoc]
      exact List.take_left
    refine ⟨c + used.length, failure.rest.headD s.finish, by omega, ?_, ?_, rfl, ?_, ?_⟩
    · rw [← List.drop_drop, hused, List.drop_left]
    · have hget := congrArg (fun tokens => tokens[used.length]?) hlist
      simpa using hget
    · rw [hbefore]
      exact exists_accepted hr hused hlevel
    · intro more
      rw [huntil, List.append_assoc]
      exact not_accepted hr hused s.finish_kind more

/-- The tokens of `SELECT a b`, in which the second name does not fit. -/
def TokenStream.twoNames : TokenStream where
  tokens := [⟨.keyword, "SELECT", ⟨"q", 1, 1⟩⟩, ⟨.identifier, "a", ⟨"q", 1, 8⟩⟩,
    ⟨.identifier, "b", ⟨"q", 1, 10⟩⟩]
  finish := ⟨.endOfInput, "", ⟨"q", 1, 11⟩⟩
  kind_ne_endOfInput := by decide
  finish_kind := rfl

theorem TokenStream.fault_of_twoNames :
    ∃ i t, 0 ≤ i ∧ [⟨.identifier, "b", ⟨"q", 1, 10⟩⟩] = twoNames.tokens.drop i ∧
      twoNames.toList[i]? = some t ∧ (⟨"q", 1, 10⟩ : Position) = t.position ∧
      (∃ more, WithoutEnd more ∧ Accepted ((twoNames.toList.drop 0).take (i - 0) ++ more)) ∧
      ∀ more, ¬ Accepted ((twoNames.toList.drop 0).take (i + 1 - 0) ++ more) := by
  have hread : Session.statement ⟨twoNames.tokens.drop 0, twoNames.finish⟩ =
      (.error ⟨⟨"q", 1, 10⟩, .syntactic (.expected (.kind .semicolon)) (.lexeme "b")⟩,
        ⟨[⟨.identifier, "b", ⟨"q", 1, 10⟩⟩], twoNames.finish⟩) := by
    rfl
  refine fault_at_first_misfit twoNames (Nat.zero_le _) hread ?_
  intro found
  simp

end SqlForest
