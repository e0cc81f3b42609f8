import SqlForest.Proofs.Grammar.Faults
import SqlForest.Proofs.Script.Segments
import SqlForest.Proofs.Token.WellFormed

/-!
# What the scanner promises to the grammar

Rules take the tokens as they come.  They look up keywords by their canonical spelling and read the
values of numbers, and they could not say anything better than that a number is too long.  The
tokens of a text are such that none of this can go wrong (`TokenStream.ofText_suits_rules`), because
every fault of a script is about one of its tokens (`TokenStream.exists_describes`).
-/

namespace SqlForest

namespace TokenStream

/-- A fault of a script is about a token of the stream, or about the end of input. -/
theorem exists_describes {s : TokenStream} {ds : List Diagnostic} (h : s.script = .error ds)
    {d : Diagnostic} (hd : d ∈ ds) :
    ∃ (fault : SyntaxFault) (next : Option Token),
      d = ⟨(next.getD s.finish).position, .syntactic fault (next.getD s.finish).quoted⟩ ∧
        fault.Describes next ∧ ∀ t ∈ next, t ∈ s.tokens := by
  rw [script_eq_gather, gather_eq_error, map_outcome_segments] at h
  obtain ⟨result, hresult, herror⟩ : ∃ result ∈ (SqlForest.segments s.tokens).map
      (fun segment => Session.outcome ⟨segment, s.finish⟩), errorOf? result = some d := by
    rw [← List.mem_filterMap, h.2]
    exact hd
  obtain ⟨segment, hsegment, rfl⟩ := List.mem_map.mp hresult
  cases hread : Rule.statement Session.rules segment with
  | ok read =>
    rw [Session.outcome_of_ok hread] at herror
    cases herror
  | error failure =>
    rw [Session.outcome_of_error hread] at herror
    obtain ⟨used, hused, -⟩ := Session.whole_statement.fails segment failure hread
    have hdescribes := Rule.truthful_statement (Rules.truthful_ofLevels maxDepth) _ _ hread
    refine ⟨failure.fault, failure.rest.head?, ?_, hdescribes, ?_⟩
    · rw [← List.headD_eq_head?_getD]
      exact (Option.some.inj herror).symm
    · intro t ht
      apply mem_of_mem_segment hsegment
      rw [hused]
      exact List.mem_append_right used (List.mem_of_mem_head? ht)

/-- Where all numbers are well formed no number is too long for the grammar. -/
theorem fault_ne_numberTooLong {s : TokenStream} (hwell : ∀ t ∈ s.tokens, t.toLexeme.WellFormed)
    {ds : List Diagnostic} (h : s.script = .error ds) {d : Diagnostic} (hd : d ∈ ds)
    (found : Quoted) : d.fault ≠ .syntactic .numberTooLong found := by
  obtain ⟨fault, next, rfl, hdescribes, hnext⟩ := exists_describes h hd
  intro hfault
  cases hfault
  obtain ⟨t, ht, hkind, hvalue⟩ := hdescribes
  have hnumber : Lexeme.WellFormed ⟨.number, t.lexeme⟩ := hkind ▸ hwell t (hnext t ht)
  rw [hnumber.value.2.2.1] at hvalue
  cases hvalue

/-- No number of a text is too long for the grammar. -/
theorem fault_ne_numberTooLong_of_readScript {source text : String} {ds : List Diagnostic}
    (h : readScript source text = .error ds) {d : Diagnostic} (hd : d ∈ ds) (found : Quoted) :
    d.fault ≠ .syntactic .numberTooLong found := by
  unfold readScript at h
  split at h
  · rename_i s hs
    exact fault_ne_numberTooLong (wellFormed_of_ofText hs) h hd found
  · rename_i ds' hs
    cases h
    obtain ⟨fault, hfault⟩ := isLexical_of_ofText hs hd
    rw [hfault]
    intro heq
    cases heq

/-- The tokens of a text are closed by one token without characters, the only one that marks the end
of input, and all others are well formed: keywords have their canonical spellings and are found by
them, names are no keywords under another case, numbers fit 64 bits.  So no diagnostic of a script
is about a number that the grammar cannot read. -/
theorem ofText_suits_rules (source text : String) :
    (∀ s, ofText source text = .ok s →
      s.toList.countP (fun t => t.kind = .endOfInput) = 1 ∧
      s.toList.getLast? = some s.finish ∧ s.finish.kind = .endOfInput ∧ s.finish.lexeme = "" ∧
      ofList? s.toList = some s ∧
      ∀ t ∈ s.tokens, t.toLexeme.WellFormed ∧
        (t.kind = .keyword → ∃ k : Keyword, t.keyword? = some k ∧ t.lexeme = k.spelling) ∧
        (t.kind = .identifier → ∀ k : Keyword, k.spelling ≠ Text.inCapitals t.lexeme) ∧
        (t.kind = .number →
          (Integer.valueOfDigits t.lexeme.toList : Int) ≤ Integer.greatest)) ∧
    ∀ ds, readScript source text = .error ds → ∀ d ∈ ds, ∀ found,
      d.fault ≠ .syntactic .numberTooLong found := by
  refine ⟨?_, ?_⟩
  · intro s h
    obtain ⟨-, hfinish⟩ := ofText_eq_ok.mp h
    have hnone : s.tokens.countP (fun t => t.kind = .endOfInput) = 0 := by
      rw [List.countP_eq_zero]
      intro t ht
      simpa using s.kind_ne_endOfInput t ht
    refine ⟨?_, List.getLast?_concat, s.finish_kind, ?_, ofList?_toList s, ?_⟩
    · rw [toList, List.countP_append, hnone, List.countP_singleton, s.finish_kind]
      rfl
    · rw [hfinish]
      rfl
    · intro t ht
      have hwell := wellFormed_of_ofText h t ht
      refine ⟨hwell, ?_, ?_, ?_⟩
      · intro hkind
        have hkeyword : Lexeme.WellFormed ⟨.keyword, t.lexeme⟩ := hkind ▸ hwell
        obtain ⟨k, hk⟩ := hkeyword.exists_keyword
        refine ⟨k, ?_, hk⟩
        rw [Token.keyword?, if_pos hkind, hk, Keyword.ofWord?_spelling]
      · intro hkind k hk
        have hname : Lexeme.WellFormed ⟨.identifier, t.lexeme⟩ := hkind ▸ hwell
        have hfree := List.find?_eq_none.mp hname.isName.free k k.mem_all
        exact hfree (decide_eq_true hk)
      · intro hkind
        have hnumber : Lexeme.WellFormed ⟨.number, t.lexeme⟩ := hkind ▸ hwell
        exact hnumber.value.2.2.2
  · intro ds h d hd found
    exact fault_ne_numberTooLong_of_readScript h hd found

end TokenStream

end SqlForest
