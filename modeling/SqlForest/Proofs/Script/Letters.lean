import SqlForest.Proofs.Report.Messages
import SqlForest.Proofs.Script.Layout
import SqlForest.Proofs.Token.Letters

/-!
# Scripts in another case

The case of keywords is lost with their first scan, and the case of names is only carried along.  So
a text in which letters inside of words are changed to another case is read into the same statements
but for the case of names, or fails with the same faults, which quote names as they are written
(`readScript_recased`).

Both texts are compared by their names in lower case: there they have the same tokens, and whether
tokens are lowered before or after they are read makes no difference.
-/

namespace SqlForest

/-! ## Names in lower case -/

/-- The token in lower case, if it is a name. -/
def Token.lowered (t : Token) : Token :=
  if t.kind = .identifier then { t with lexeme := t.lexeme.toLower } else t

theorem Token.renames_lowered : Renames lowered String.toLower where
  kind t := by
    unfold lowered
    split <;> rfl
  name t ht := by rw [lowered, if_pos ht]
  lexeme t ht := by rw [lowered, if_neg ht]

theorem Token.position_lowered (t : Token) : t.lowered.position = t.position := by
  unfold lowered
  split <;> rfl

/-- The tokens of a recased text are the same in lower case. -/
theorem Place.lowered_recast {text text' : List Char} {x : Place}
    (hletters : SameLetters text' text) (hbegins : x.written <+: text.drop x.start)
    (hwritten : x.token.WrittenAs x.written) :
    (x.recast text').token.lowered = x.token.lowered := by
  by_cases hname : x.token.kind = .identifier
  · have hlexeme : x.token.lexeme.toList = (text.drop x.start).take x.written.length := by
      have hspelling : x.written = x.token.lexeme.toList := by
        unfold Token.WrittenAs at hwritten
        rwa [hname] at hwritten
      rw [← hspelling]
      exact List.prefix_iff_eq_take.mp hbegins
    have hsame : (String.ofList (x.standing text')).toLower = x.token.lexeme.toLower := by
      have hlower : ∀ a : String, a.toLower.toList = a.toList.map Char.toLower :=
        fun _ => String.toList_map
      rw [← String.toList_inj, hlower, hlower, String.toList_ofList, hlexeme, standing,
        List.map_take, List.map_take, List.map_drop, List.map_drop, hletters]
    have htoken : (x.recast text').token =
        { x.token with lexeme := String.ofList (x.standing text') } := if_pos hname
    rw [htoken, Token.lowered, Token.lowered, if_pos hname, if_pos hname]
    show Token.mk _ (String.ofList (x.standing text')).toLower _ = _
    rw [hsame]
  · have htoken : (x.recast text').token = x.token := if_neg hname
    rw [htoken]

/-! ## Where readings fail -/

theorem suffix_afterSemicolon (tokens : List Token) : afterSemicolon tokens <:+ tokens := by
  induction tokens with
  | nil => exact List.suffix_refl []
  | cons t tokens ih =>
    unfold afterSemicolon
    split
    · exact List.suffix_cons t tokens
    · exact ih.trans (List.suffix_cons t tokens)

/-- Where a reading fails an end of the tokens is left. -/
theorem suffix_of_readings {α : Type} {rule : Rule α} (h : rule.Forward)
    {budget tokens : List Token} {failure : Failure}
    (hmem : .error failure ∈ readings rule budget tokens) : failure.rest <:+ tokens := by
  fun_induction readings rule budget tokens with
  | case1 b budget t tokens a rest hr ih =>
    rcases List.mem_cons.mp hmem with hfirst | hlater
    · cases hfirst
    · exact (ih hlater).trans (h.reads _ a rest hr)
  | case2 b budget t tokens first hr ih =>
    have hfirst := h.fails _ first hr
    rcases List.mem_cons.mp hmem with heq | hlater
    · rwa [Except.error.inj heq]
    · exact ((ih hlater).trans (suffix_afterSemicolon first.rest)).trans hfirst
  | case3 budget tokens hnone => cases hmem

namespace TokenStream

variable {s t : TokenStream}

/-- The first token of an end of the tokens is the one behind those in front of it. -/
theorem headD_eq_tokenAt {rest : List Token} (h : rest <:+ s.tokens) :
    rest.headD s.finish = s.tokenAt (s.tokens.length - rest.length) := by
  obtain ⟨used, hused⟩ := h
  have hindex : s.tokens.length - rest.length = used.length := by
    rw [← hused, List.length_append]
    omega
  rw [hindex, tokenAt, toList, ← hused, List.append_assoc, List.getD_eq_getElem?_getD,
    List.getElem?_append_right (Nat.le_refl _), Nat.sub_self]
  cases rest <;> rfl

/-- The diagnostics are about the tokens with the same number of two streams, which are at the same
position, and say the same of them. -/
def SameFault (s t : TokenStream) (d d' : Diagnostic) : Prop :=
  d'.position = d.position ∧ ∃ index < s.toList.length,
    (s.tokenAt index).position = d.position ∧ (t.tokenAt index).position = d'.position ∧
    ∃ before behind, d.message = before ++ (s.tokenAt index).quoted.text ++ behind ∧
      d'.message = before ++ (t.tokenAt index).quoted.text ++ behind

/-- Streams of the same tokens, but for the case of names. -/
structure SameInLowerCase (s t : TokenStream) : Prop where
  tokens : s.tokens.map Token.lowered = t.tokens.map Token.lowered
  finish : s.finish = t.finish

/-- What is read of the streams is the same, but for the case of names. -/
def ReadAlike (s t : TokenStream) :
    Except (List Diagnostic) (List Statement) → Except (List Diagnostic) (List Statement) → Prop
  | .ok statements, .ok statements' =>
    statements.map (Statement.rename String.toLower) =
      statements'.map (Statement.rename String.toLower)
  | .error ds, .error ds' => List.Forall₂ (s.SameFault t) ds ds'
  | _, _ => False

/-- Where a script fails an end of its tokens is left. -/
theorem suffix_of_gather {failures : List Failure}
    (h : gather (readings (Rule.statement Session.rules) s.tokens s.tokens) = .error failures) :
    ∀ failure ∈ failures, failure.rest <:+ s.tokens := by
  intro failure hmem
  rw [← (gather_eq_error.mp h).2] at hmem
  obtain ⟨result, hresult, herror⟩ := List.mem_filterMap.mp hmem
  cases result with
  | ok statement => cases herror
  | error first =>
    cases herror
    exact suffix_of_readings Session.whole_statement.forward hresult

/-- Names may be lowered before they are read or in what is read. -/
theorem gather_readings_lowered (tokens : List Token) :
    gather (readings (Rule.statement Session.rules) (tokens.map Token.lowered)
      (tokens.map Token.lowered)) =
      ((gather (readings (Rule.statement Session.rules) tokens tokens)).map
        (List.map (Statement.rename String.toLower))).mapError
          (List.map (Failure.map Token.lowered)) := by
  have hcarries := Rule.carries_statement Token.renames_lowered
    (Rules.natural_ofLevels Token.renames_lowered maxDepth)
  have hrecast : recast Token.lowered (Statement.rename String.toLower) =
      Except.mapError (Failure.map Token.lowered) ∘
        Except.map (Statement.rename String.toLower) := by
    funext result
    cases result <;> rfl
  rw [Session.rules, readings_map Token.renames_lowered.kind hcarries, hrecast, ← List.map_map,
    gather_mapError, gather_map]

namespace SameInLowerCase

theorem tokenAt (h : s.SameInLowerCase t) (index : Nat) :
    (s.tokenAt index).lowered = (t.tokenAt index).lowered := by
  have htokens : s.toList.map Token.lowered = t.toList.map Token.lowered := by
    rw [toList, toList, List.map_append, List.map_append, h.tokens, h.finish]
  have hlowered : ∀ u : TokenStream, (u.tokenAt index).lowered =
      ((u.toList.map Token.lowered)[index]?).getD u.finish.lowered := by
    intro u
    rw [TokenStream.tokenAt, List.getD_eq_getElem?_getD, List.getElem?_map, Option.getD_map]
  rw [hlowered, hlowered, htokens, h.finish]

theorem length_eq (h : s.SameInLowerCase t) : s.tokens.length = t.tokens.length := by
  simpa using congrArg List.length h.tokens

/-- Failures that are the same in lower case are reported as the same fault. -/
theorem sameFault (h : s.SameInLowerCase t) {failure failure' : Failure}
    (hrest : failure.rest <:+ s.tokens) (hrest' : failure'.rest <:+ t.tokens)
    (hsame : failure.map Token.lowered = failure'.map Token.lowered) :
    s.SameFault t (failure.diagnostic s.finish) (failure'.diagnostic t.finish) := by
  obtain ⟨rest, fault⟩ := failure
  obtain ⟨rest', fault'⟩ := failure'
  obtain ⟨hrests, hfaults⟩ := Failure.mk.inj hsame
  have hfault : fault = fault' := hfaults
  have hlength : rest.length = rest'.length := by simpa using congrArg List.length hrests
  let index := s.tokens.length - rest.length
  have hat : rest.headD s.finish = s.tokenAt index := headD_eq_tokenAt hrest
  have hat' : rest'.headD t.finish = t.tokenAt index := by
    rw [headD_eq_tokenAt hrest', ← h.length_eq, ← hlength]
  have hpositions : (t.tokenAt index).position = (s.tokenAt index).position := by
    rw [← Token.position_lowered, ← h.tokenAt, Token.position_lowered]
  obtain ⟨before, behind, -, -, hmessage⟩ := fault.exists_around
  have hindex : index < s.toList.length := by
    rw [toList, List.length_append]
    exact Nat.lt_succ_of_le (Nat.sub_le _ _)
  rw [Failure.diagnostic, Failure.diagnostic, hat, hat', ← hfault]
  exact ⟨hpositions, index, hindex, rfl, rfl, before, behind, hmessage _, hmessage _⟩

/-- Failures that are the same in lower case are reported as the same faults. -/
theorem sameFaults (h : s.SameInLowerCase t) {failures failures' : List Failure}
    (hrest : ∀ failure ∈ failures, failure.rest <:+ s.tokens)
    (hrest' : ∀ failure ∈ failures', failure.rest <:+ t.tokens)
    (hsame : failures.map (Failure.map Token.lowered) =
      failures'.map (Failure.map Token.lowered)) :
    List.Forall₂ (s.SameFault t) (failures.map fun failure => failure.diagnostic s.finish)
      (failures'.map fun failure => failure.diagnostic t.finish) := by
  induction failures generalizing failures' with
  | nil =>
    rw [List.map_eq_nil_iff.mp hsame.symm]
    exact .nil
  | cons failure failures ih =>
    cases failures' with
    | nil => cases hsame
    | cons failure' failures' =>
      obtain ⟨hfirst, hmore⟩ := List.forall_mem_cons.mp hrest
      obtain ⟨hfirst', hmore'⟩ := List.forall_mem_cons.mp hrest'
      obtain ⟨heq, hlater⟩ := List.cons.inj hsame
      exact .cons (h.sameFault hfirst hfirst' heq) (ih hmore hmore' hlater)

/-- Streams of the same tokens, but for the case of names, are read alike. -/
theorem readAlike (h : s.SameInLowerCase t) : s.ReadAlike t s.script t.script := by
  have hsame := gather_readings_lowered s.tokens
  rw [h.tokens, gather_readings_lowered t.tokens] at hsame
  unfold script Session.script Session.ofStream
  cases hs : gather (readings (Rule.statement Session.rules) s.tokens s.tokens) with
  | ok statements =>
    rw [hs] at hsame
    cases ht : gather (readings (Rule.statement Session.rules) t.tokens t.tokens) with
    | ok statements' =>
      rw [ht] at hsame
      exact (Except.ok.inj hsame).symm
    | error failures' =>
      rw [ht] at hsame
      cases hsame
  | error failures =>
    rw [hs] at hsame
    cases ht : gather (readings (Rule.statement Session.rules) t.tokens t.tokens) with
    | ok statements' =>
      rw [ht] at hsame
      cases hsame
    | error failures' =>
      rw [ht] at hsame
      exact h.sameFaults (suffix_of_gather hs) (suffix_of_gather ht) (Except.error.inj hsame).symm

end SameInLowerCase

end TokenStream

/-! ## Texts in another case -/

/-- In a text in which letters of keywords and names are changed to another case, the same tokens
are found at the same positions, but that names are what stands in their places.  Both texts are
read into the same statements but for the case of names, or fail with the same faults at the same
tokens, as each of them has them. -/
theorem readScript_recased {source text text' : String} {s : TokenStream} {places : List Place}
    (hs : TokenStream.ofText source text = .ok s) (hplaces : places.map Place.token = s.tokens)
    (hlaid : Laid (Position.origin source) text.toList places)
    (h : Recased places text.toList text'.toList) :
    ∃ s', TokenStream.ofText source text' = .ok s' ∧ s'.finish = s.finish ∧
      s'.tokens = places.map (fun x => (x.recast text'.toList).token) ∧
      s.SameInLowerCase s' ∧
      s.ReadAlike s' (readScript source text) (readScript source text') := by
  obtain ⟨s', hs', hfinish, htokens⟩ := TokenStream.ofText_recased hs hplaces hlaid h
  have hlowered : s.SameInLowerCase s' := by
    refine ⟨?_, hfinish.symm⟩
    rw [htokens, ← hplaces, List.map_map, List.map_map]
    refine List.map_congr_left ?_
    intro x hx
    obtain ⟨-, hbegins, hwritten⟩ := hlaid.written x hx
    exact (Place.lowered_recast h.letters hbegins hwritten).symm
  refine ⟨s', hs', hfinish, htokens, hlowered, ?_⟩
  rw [readScript, readScript, hs, hs']
  exact hlowered.readAlike

/-- The places of a keyword and two names, as in `use aB cD`. -/
def Place.useTwoNames : List Place :=
  [⟨0, ['u', 's', 'e'], ⟨.keyword, "USE", ⟨"f", 1, 1⟩⟩⟩,
    ⟨4, ['a', 'B'], ⟨.identifier, "aB", ⟨"f", 1, 5⟩⟩⟩,
    ⟨7, ['c', 'D'], ⟨.identifier, "cD", ⟨"f", 1, 8⟩⟩⟩]

/-- The second name does not fit and is quoted. -/
theorem readScript_recased_useTwoNames :
    ∃ s, TokenStream.ofText "f" "use aB cD" = .ok s ∧
      Place.useTwoNames.map Place.token = s.tokens ∧
      Laid (Position.origin "f") "use aB cD".toList Place.useTwoNames ∧
      Recased Place.useTwoNames "use aB cD".toList "uSE AB Cd".toList ∧
      ∃ s', TokenStream.ofText "f" "uSE AB Cd" = .ok s' ∧
        s'.tokens = [⟨.keyword, "USE", ⟨"f", 1, 1⟩⟩, ⟨.identifier, "AB", ⟨"f", 1, 5⟩⟩,
          ⟨.identifier, "Cd", ⟨"f", 1, 8⟩⟩] ∧
        s.ReadAlike s' (readScript "f" "use aB cD") (readScript "f" "uSE AB Cd") := by
  have htext : "use aB cD".toList = ['u', 's', 'e', ' ', 'a', 'B', ' ', 'c', 'D'] := by decide
  have hother : "uSE AB Cd".toList = ['u', 'S', 'E', ' ', 'A', 'B', ' ', 'C', 'd'] := by decide
  have hs : ∃ s, TokenStream.ofText "f" "use aB cD" = .ok s ∧
      Place.useTwoNames.map Place.token = s.tokens :=
    ⟨⟨Place.useTwoNames.map Place.token, ⟨.endOfInput, "", ⟨"f", 1, 10⟩⟩, by decide, rfl⟩, rfl, rfl⟩
  have hlaid : Laid (Position.origin "f") "use aB cD".toList Place.useTwoNames := by
    have hsecond := @Laid.cons_token ⟨"f", 1, 8⟩ ⟨.identifier, "cD", ⟨"f", 1, 8⟩⟩ ['c', 'D'] [] []
      (List.cons_ne_nil 'c' ['D']) rfl rfl (laid_nil ⟨"f", 1, 10⟩)
    have hfirst := @Laid.cons_token ⟨"f", 1, 5⟩ ⟨.identifier, "aB", ⟨"f", 1, 5⟩⟩ ['a', 'B'] _ _
      (List.cons_ne_nil 'a' ['B']) rfl rfl (@Laid.cons_blank ⟨"f", 1, 7⟩ ' ' _ _ rfl hsecond)
    rw [htext]
    exact @Laid.cons_token ⟨"f", 1, 1⟩ ⟨.keyword, "USE", ⟨"f", 1, 1⟩⟩ ['u', 's', 'e'] _ _
      (List.cons_ne_nil 'u' ['s', 'e']) rfl rfl (@Laid.cons_blank ⟨"f", 1, 4⟩ ' ' _ _ rfl hfirst)
  have hrecased : Recased Place.useTwoNames "use aB cD".toList "uSE AB Cd".toList := by
    rw [htext, hother]
    refine ⟨by unfold SameLetters; decide, ?_⟩
    intro i hi
    simp only [Place.useTwoNames, List.forall_mem_cons, Place.stop] at hi
    simp [TokenKind.foldsCase] at hi
    obtain rfl | rfl | hlong : i = 3 ∨ i = 6 ∨ 9 ≤ i := by omega
    · rfl
    · rfl
    · rw [List.getElem?_eq_none hlong, List.getElem?_eq_none hlong]
  obtain ⟨s, hs, hplaces⟩ := hs
  obtain ⟨s', hs', -, htokens, -, hread⟩ := readScript_recased hs hplaces hlaid hrecased
  refine ⟨s, hs, hplaces, hlaid, hrecased, s', hs', ?_, hread⟩
  rw [htokens, hother]
  rfl

end SqlForest
