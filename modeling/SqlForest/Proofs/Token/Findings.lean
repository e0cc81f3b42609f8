import SqlForest.Proofs.Token.Agreement

/-!
# The findings decide the result

The scan of a text yields a stream exactly when all findings are tokens, and these are its tokens
(`TokenStream.ofText_eq_ok`).  Otherwise it yields the diagnostics among the findings
(`TokenStream.ofText_eq_error`).
-/

namespace SqlForest

/-- The findings of a whole text. -/
def findingsOf (source text : String) : List (Except Diagnostic Token) :=
  findings (Position.origin source) text.toList

/-- The token that closes the tokens of a text. -/
def finishOf (source text : String) : Token :=
  ⟨.endOfInput, "", (Position.origin source).afterAll text.toList⟩

theorem Scanner.comes_ofText (source text : String) :
    (start source).Comes (ofText source text) text.toList (findingsOf source text) :=
  comes_run rfl text.toList

theorem Scanner.tokens_ofText (source text : String) :
    (ofText source text).tokens.reverse = (findingsOf source text).filterMap Except.toOption := by
  rw [(comes_ofText source text).tokens, List.reverse_append, List.reverse_reverse]
  rfl

theorem Scanner.diagnostics_ofText (source text : String) :
    (ofText source text).diagnostics.reverse = (findingsOf source text).filterMap errorOf? := by
  rw [(comes_ofText source text).diagnostics, List.reverse_append, List.reverse_reverse]
  rfl

namespace TokenStream

theorem toList_injective {s t : TokenStream} (h : s.toList = t.toList) : s = t := by
  have hs := ofList?_toList s
  rw [h, ofList?_toList] at hs
  exact (Option.some.inj hs).symm

/-- The result of a scan, told from its findings. -/
theorem map_toList_eq_ite (source text : String) :
    (ofText source text).map toList =
      if ((findingsOf source text).filterMap errorOf?).isEmpty then
        .ok ((findingsOf source text).filterMap Except.toOption ++ [finishOf source text])
      else .error ((findingsOf source text).filterMap errorOf?) := by
  have hposition : (Scanner.ofText source text).position =
      (Position.origin source).afterAll text.toList := (Scanner.comes_ofText source text).position
  rw [map_toList_ofText, ← Scanner.tokens_ofText, ← Scanner.diagnostics_ofText, hposition,
    List.isEmpty_reverse]
  rfl

/-- A text is cut into a stream exactly when all findings are tokens, the tokens of the stream. -/
theorem ofText_eq_ok {source text : String} {s : TokenStream} :
    ofText source text = .ok s ↔
      findingsOf source text = s.tokens.map .ok ∧ s.finish = finishOf source text := by
  have hresult := map_toList_eq_ite source text
  constructor
  · intro h
    rw [h] at hresult
    split at hresult
    · rename_i hempty
      obtain ⟨tokens, hfindings⟩ := filterMap_errorOf?_eq_nil.mp (List.isEmpty_iff.mp hempty)
      rw [hfindings, filterMap_toOption_map_ok] at hresult
      obtain ⟨htokens, hfinish⟩ := List.append_inj' (Except.ok.inj hresult) rfl
      rw [htokens]
      exact ⟨hfindings, List.singleton_inj.mp hfinish⟩
    · cases hresult
  · rintro ⟨hfindings, hfinish⟩
    rw [hfindings, filterMap_errorOf?_eq_nil.mpr ⟨_, rfl⟩, filterMap_toOption_map_ok,
      if_pos List.isEmpty_nil] at hresult
    cases hs : ofText source text with
    | error ds =>
      rw [hs] at hresult
      cases hresult
    | ok t =>
      rw [hs, ← hfinish] at hresult
      rw [toList_injective (Except.ok.inj hresult)]

/-- A text is refused exactly when some findings are diagnostics, with all of these. -/
theorem ofText_eq_error {source text : String} {ds : List Diagnostic} :
    ofText source text = .error ds ↔
      ds ≠ [] ∧ (findingsOf source text).filterMap errorOf? = ds := by
  have hresult := map_toList_eq_ite source text
  cases hs : ofText source text with
  | ok s =>
    obtain ⟨hfindings, -⟩ := ofText_eq_ok.mp hs
    constructor
    · intro h
      cases h
    · rintro ⟨hne, h⟩
      rw [hfindings, filterMap_errorOf?_eq_nil.mpr ⟨_, rfl⟩] at h
      exact absurd h.symm hne
  | error later =>
    rw [hs] at hresult
    split at hresult
    · cases hresult
    · rename_i hempty
      have hlater : later = (findingsOf source text).filterMap errorOf? := Except.error.inj hresult
      rw [← hlater] at hempty ⊢
      constructor
      · intro h
        rw [← Except.error.inj h]
        refine ⟨?_, rfl⟩
        intro hnil
        exact hempty (List.isEmpty_iff.mpr hnil)
      · rintro ⟨-, h⟩
        rw [h]

end TokenStream

end SqlForest
