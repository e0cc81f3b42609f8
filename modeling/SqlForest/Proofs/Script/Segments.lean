import SqlForest.Proofs.Script.Readings

/-!
# A script is judged segment by segment

`segments` cuts tokens behind each semicolon.  What a rule for statements does with a segment it
does whatever stands behind that segment (`Rule.Whole.segment`), and after a failure the next
reading starts behind the segment.  So the results of a session are the results of its segments
(`Session.results_eq_segments`), and a stream is read into the outcomes of its segments, each of
them read by itself (`TokenStream.script_by_segments`).
-/

namespace SqlForest

/-! ## Segments -/

/-- The tokens cut behind each semicolon.  What stands behind the last one is a segment as well,
unless there is nothing. -/
def segments : List Token → List (List Token)
  | [] => []
  | t :: tokens =>
    if t.kind = .semicolon then [t] :: segments tokens
    else
      match segments tokens with
      | [] => [[t]]
      | first :: later => (t :: first) :: later

/-- A segment that a semicolon ends. -/
def Ended (tokens : List Token) : Prop :=
  ∃ body last, tokens = body ++ [last] ∧ Unended body ∧ last.kind = .semicolon

theorem segments_cons_semicolon {t : Token} (h : t.kind = .semicolon) (tokens : List Token) :
    segments (t :: tokens) = [t] :: segments tokens := by
  rw [segments, if_pos h]

/-- Another token is put in front of the first segment. -/
theorem segments_cons {t : Token} (h : t.kind ≠ .semicolon) {tokens first : List Token}
    {later : List (List Token)} (hlater : segments tokens = first :: later) :
    segments (t :: tokens) = (t :: first) :: later := by
  rw [segments, if_neg h, hlater]

theorem segments_append {body : List Token} {last : Token} (hbody : Unended body)
    (hlast : last.kind = .semicolon) (rest : List Token) :
    segments (body ++ last :: rest) = (body ++ [last]) :: segments rest := by
  induction body with
  | nil => exact segments_cons_semicolon hlast rest
  | cons t body ih =>
    have ht : t.kind ≠ .semicolon := hbody t List.mem_cons_self
    exact segments_cons ht (ih hbody.tail)

theorem segments_of_unended {tokens : List Token} (h : Unended tokens) (hne : tokens ≠ []) :
    segments tokens = [tokens] := by
  induction tokens with
  | nil => exact absurd rfl hne
  | cons t tokens ih =>
    have ht : t.kind ≠ .semicolon := h t List.mem_cons_self
    cases tokens with
    | nil =>
      rw [segments, if_neg ht]
      rfl
    | cons u tokens => exact segments_cons ht (ih h.tail (List.cons_ne_nil u tokens))

theorem Ended.segments {tokens : List Token} (h : Ended tokens) : segments tokens = [tokens] := by
  obtain ⟨body, last, rfl, hbody, hlast⟩ := h
  exact segments_append hbody hlast []

theorem unended_or_split (tokens : List Token) :
    Unended tokens ∨ ∃ body last rest, tokens = body ++ last :: rest ∧ Unended body ∧
      last.kind = .semicolon := by
  induction tokens with
  | nil => exact Or.inl (without_nil _)
  | cons t tokens ih =>
    by_cases ht : t.kind = .semicolon
    · exact Or.inr ⟨[], t, tokens, rfl, without_nil _, ht⟩
    · rcases ih with htail | ⟨body, last, rest, rfl, hbody, hlast⟩
      · exact Or.inl (htail.cons ht)
      · exact Or.inr ⟨t :: body, last, rest, rfl, hbody.cons ht, hlast⟩

/-- Tokens are nothing, a segment without an end, or a segment with its end and further tokens. -/
theorem segment_induction {P : List Token → Prop} (nil : P [])
    (unended : ∀ tokens, tokens ≠ [] → Unended tokens → P tokens)
    (ended : ∀ body last rest, Unended body → last.kind = .semicolon → P rest →
      P (body ++ last :: rest))
    (tokens : List Token) : P tokens := by
  induction hn : tokens.length using Nat.strongRecOn generalizing tokens with
  | ind n ih =>
    rcases unended_or_split tokens with h | ⟨body, last, rest, rfl, hbody, hlast⟩
    · by_cases hne : tokens = []
      · rw [hne]
        exact nil
      · exact unended tokens hne h
    · simp only [List.length_append, List.length_cons] at hn
      exact ended body last rest hbody hlast (ih rest.length (by omega) rest rfl)

theorem flatten_segments (tokens : List Token) : (segments tokens).flatten = tokens := by
  induction tokens using segment_induction with
  | nil => rfl
  | unended tokens hne h => rw [segments_of_unended h hne, List.flatten_singleton]
  | ended body last rest hbody hlast ih =>
    rw [segments_append hbody hlast, List.flatten_cons, ih, List.append_assoc]
    rfl

/-- A segment has one semicolon, as its last token, or none. -/
theorem ended_or_unended_of_mem {tokens segment : List Token} (h : segment ∈ segments tokens) :
    Ended segment ∨ Unended segment ∧ segment ≠ [] := by
  induction tokens using segment_induction with
  | nil => simp [segments] at h
  | unended tokens hne hun =>
    rw [segments_of_unended hun hne, List.mem_singleton] at h
    rw [h]
    exact Or.inr ⟨hun, hne⟩
  | ended body last rest hbody hlast ih =>
    rw [segments_append hbody hlast, List.mem_cons] at h
    rcases h with rfl | h
    · exact Or.inl ⟨body, last, rfl, hbody, hlast⟩
    · exact ih h

/-- A segment is cut no further. -/
theorem segments_of_mem {tokens segment : List Token} (h : segment ∈ segments tokens) :
    segments segment = [segment] := by
  rcases ended_or_unended_of_mem h with hended | ⟨hun, hne⟩
  · exact hended.segments
  · exact segments_of_unended hun hne

theorem mem_of_mem_segment {tokens segment : List Token} (h : segment ∈ segments tokens)
    {t : Token} (ht : t ∈ segment) : t ∈ tokens := by
  have hmem : t ∈ (segments tokens).flatten := List.mem_flatten.mpr ⟨segment, h, ht⟩
  rwa [flatten_segments] at hmem

theorem length_le_of_mem_segments {tokens segment : List Token} (h : segment ∈ segments tokens) :
    segment.length ≤ tokens.length := by
  have hle := (List.sublist_flatten_of_mem h).length_le
  rwa [flatten_segments] at hle

theorem afterSemicolon_of_unended {tokens : List Token} (h : Unended tokens) :
    afterSemicolon tokens = [] := by
  induction tokens with
  | nil => rfl
  | cons t tokens ih =>
    rw [afterSemicolon, if_neg (h t List.mem_cons_self)]
    exact ih h.tail

theorem afterSemicolon_append {body : List Token} {last : Token} (hbody : Unended body)
    (hlast : last.kind = .semicolon) (rest : List Token) :
    afterSemicolon (body ++ last :: rest) = rest := by
  induction body with
  | nil => exact if_pos hlast
  | cons t body ih =>
    rw [List.cons_append, afterSemicolon, if_neg (hbody t List.mem_cons_self)]
    exact ih hbody.tail

/-! ## A rule on a segment -/

section Rule

variable {α : Type} {rule : Rule α}

/-- There is one way to cut tokens in front of their first semicolon. -/
theorem append_cons_inj {us vs rest rest' : List Token} {last last' : Token} (hus : Unended us)
    (hvs : Unended vs) (hlast : last.kind = .semicolon) (hlast' : last'.kind = .semicolon)
    (h : us ++ last :: rest = vs ++ last' :: rest') : us = vs ∧ last = last' ∧ rest = rest' := by
  induction us generalizing vs with
  | nil =>
    cases vs with
    | nil =>
      simp only [List.nil_append, List.cons.injEq] at h
      exact ⟨rfl, h⟩
    | cons v vs =>
      simp only [List.nil_append, List.cons_append, List.cons.injEq] at h
      rw [h.1] at hlast
      exact absurd hlast (hvs v List.mem_cons_self)
  | cons u us ih =>
    cases vs with
    | nil =>
      simp only [List.nil_append, List.cons_append, List.cons.injEq] at h
      rw [← h.1] at hlast'
      exact absurd hlast' (hus u List.mem_cons_self)
    | cons v vs =>
      simp only [List.cons_append, List.cons.injEq] at h
      obtain ⟨hus', hrest⟩ := ih hus.tail hvs.tail h.2
      exact ⟨by rw [h.1, hus'], hrest⟩

/-- What has been read in front of the first semicolon is a beginning of the tokens there. -/
theorem exists_of_append_eq {used rest body after : List Token} {last : Token}
    (hused : Unended used) (hlast : last.kind = .semicolon)
    (h : body ++ last :: after = used ++ rest) :
    ∃ left, body = used ++ left ∧ rest = left ++ last :: after := by
  rcases List.append_eq_append_iff.mp h with ⟨more, hmore, htail⟩ | ⟨left, hleft, hrest⟩
  · cases more with
    | nil =>
      refine ⟨[], ?_, htail.symm⟩
      rw [hmore, List.append_nil, List.append_nil]
    | cons t more =>
      simp only [List.cons_append, List.cons.injEq] at htail
      have hmem : last ∈ used := by
        rw [hmore, htail.1]
        exact List.mem_append_right body List.mem_cons_self
      exact absurd hlast (hused last hmem)
  · exact ⟨left, hleft, hrest⟩

/-- A rule for statements reads a segment to its end or fails inside of it, and does so whatever
stands behind the segment. -/
theorem Rule.Whole.segment (h : rule.Whole) {body : List Token} {last : Token}
    (hbody : Unended body) (hlast : last.kind = .semicolon) :
    (∃ a, ∀ rest, rule (body ++ last :: rest) = .ok (a, rest)) ∨
      ∃ used left fault, body = used ++ left ∧
        ∀ rest, rule (body ++ last :: rest) = .error ⟨left ++ last :: rest, fault⟩ := by
  cases hr : rule (body ++ [last]) with
  | ok outcome =>
    obtain ⟨a, rest⟩ := outcome
    obtain ⟨used, last', hsplit, hused, hlast', hagain⟩ := h.ends _ a rest hr
    obtain ⟨rfl, rfl, -⟩ := append_cons_inj hbody hused hlast hlast' hsplit
    exact Or.inl ⟨a, hagain⟩
  | error failure =>
    obtain ⟨used, hsplit, hused, hagain⟩ := h.fails _ failure hr
    obtain ⟨left, rfl, hleft⟩ := exists_of_append_eq hused hlast hsplit
    refine Or.inr ⟨used, left, failure.fault, rfl, ?_⟩
    intro rest
    rw [List.append_assoc]
    apply hagain
    rw [hleft]
    exact head?_append_congr left rfl

/-- Without a semicolon there is no statement. -/
theorem Rule.Whole.unended (h : rule.Whole) {tokens : List Token} (hun : Unended tokens) :
    ∃ failure, rule tokens = .error failure ∧ ∃ used, tokens = used ++ failure.rest := by
  cases hr : rule tokens with
  | ok outcome =>
    obtain ⟨used, last, hsplit, -, hlast, -⟩ := h.ends tokens outcome.1 outcome.2 hr
    have hmem : last ∈ tokens := by
      rw [hsplit]
      exact List.mem_append_right used List.mem_cons_self
    exact absurd hlast (hun last hmem)
  | error failure =>
    obtain ⟨used, hsplit, -⟩ := h.fails tokens failure hr
    exact ⟨failure, rfl, used, hsplit⟩

end Rule

/-! ## Results of segments -/

namespace Rule

variable {rule : Rule Statement} {finish : Token}

/-- What a rule makes of tokens, as it is reported if `finish` closes them. -/
def reported (rule : Rule Statement) (finish : Token) (tokens : List Token) :
    Except Diagnostic Statement :=
  match rule tokens with
  | .ok (statement, _) => .ok statement
  | .error failure => .error (failure.diagnostic finish)

/-- What a rule makes of tokens reading after reading, as it is reported if `finish` closes them. -/
def reports (rule : Rule Statement) (finish : Token) (tokens : List Token) :
    List (Except Diagnostic Statement) :=
  (allReadings rule tokens).map (Except.mapError fun failure => failure.diagnostic finish)

theorem reported_of_ok {tokens rest : List Token} {statement : Statement}
    (h : rule tokens = .ok (statement, rest)) : rule.reported finish tokens = .ok statement := by
  simp only [reported, h]

theorem reported_of_error {tokens : List Token} {failure : Failure}
    (h : rule tokens = .error failure) :
    rule.reported finish tokens = .error (failure.diagnostic finish) := by
  simp only [reported, h]

theorem Whole.reports_of_ok (h : rule.Whole) {tokens rest : List Token} {statement : Statement}
    (hread : rule tokens = .ok (statement, rest)) :
    rule.reports finish tokens = .ok statement :: rule.reports finish rest := by
  rw [reports, allReadings_of_ok h hread]
  rfl

theorem Whole.reports_of_error (h : rule.Whole) {tokens : List Token} {failure : Failure}
    (hne : tokens ≠ []) (hfail : rule tokens = .error failure) :
    rule.reports finish tokens =
      .error (failure.diagnostic finish) :: rule.reports finish (afterSemicolon failure.rest) := by
  obtain ⟨t, rest, rfl⟩ := List.exists_cons_of_ne_nil hne
  rw [reports, allReadings_of_error h hfail]
  rfl

/-- The first result of tokens that start with a segment is the result of that segment, and the
others are those of the tokens behind it. -/
theorem Whole.reports_append (h : rule.Whole) {body : List Token} {last : Token}
    (hbody : Unended body) (hlast : last.kind = .semicolon) (rest : List Token) :
    rule.reports finish (body ++ last :: rest) =
      rule.reported finish (body ++ [last]) :: rule.reports finish rest := by
  rcases h.segment hbody hlast with ⟨statement, hread⟩ | ⟨used, left, fault, rfl, hfail⟩
  · rw [h.reports_of_ok (hread rest), reported_of_ok (hread [])]
  · have hskip : afterSemicolon (left ++ last :: rest) = rest :=
      afterSemicolon_append (fun u hu => hbody u (List.mem_append_right used hu)) hlast rest
    have hhead : (left ++ last :: rest).headD finish = (left ++ [last]).headD finish := by
      cases left with
      | nil => rfl
      | cons u left => rfl
    have hdiagnostic : Failure.diagnostic ⟨left ++ last :: rest, fault⟩ finish =
        Failure.diagnostic ⟨left ++ [last], fault⟩ finish := by
      simp only [Failure.diagnostic, hhead]
    rw [h.reports_of_error (by simp) (hfail rest), reported_of_error (hfail []), hskip, hdiagnostic]

theorem Whole.reports_of_unended (h : rule.Whole) {tokens : List Token} (hun : Unended tokens)
    (hne : tokens ≠ []) : rule.reports finish tokens = [rule.reported finish tokens] := by
  obtain ⟨failure, hfail, used, hused⟩ := h.unended hun
  have hskip : afterSemicolon failure.rest = [] := by
    apply afterSemicolon_of_unended
    intro t ht
    apply hun
    rw [hused]
    exact List.mem_append_right used ht
  rw [h.reports_of_error hne hfail, reported_of_error hfail, hskip]
  rfl

/-- The results of tokens are the results of their segments. -/
theorem Whole.reports_eq_segments (h : rule.Whole) (tokens : List Token) :
    rule.reports finish tokens = (segments tokens).map (rule.reported finish) := by
  induction tokens using segment_induction with
  | nil => rfl
  | unended tokens hne hun =>
    rw [h.reports_of_unended hun hne, segments_of_unended hun hne]
    rfl
  | ended body last rest hbody hlast ih =>
    rw [h.reports_append hbody hlast, segments_append hbody hlast, ih]
    rfl

end Rule

namespace Session

variable {finish : Token}

/-- The result of the first statement of a session. -/
def outcome (s : Session) : Except Diagnostic Statement :=
  s.statement.1

theorem outcome_eq_reported (tokens : List Token) (finish : Token) :
    outcome ⟨tokens, finish⟩ = (Rule.statement rules).reported finish tokens := by
  unfold outcome Session.statement Rule.reported
  cases Rule.statement rules tokens with
  | ok read => rfl
  | error failure => rfl

theorem outcome_of_ok {tokens rest : List Token} {statement : Statement}
    (h : Rule.statement rules tokens = .ok (statement, rest)) :
    outcome ⟨tokens, finish⟩ = .ok statement := by
  rw [outcome_eq_reported, Rule.reported_of_ok h]

theorem outcome_of_error {tokens : List Token} {failure : Failure}
    (h : Rule.statement rules tokens = .error failure) :
    outcome ⟨tokens, finish⟩ = .error (failure.diagnostic finish) := by
  rw [outcome_eq_reported, Rule.reported_of_error h]

theorem results_append {body : List Token} {last : Token} (hbody : Unended body)
    (hlast : last.kind = .semicolon) (rest : List Token) :
    results ⟨body ++ last :: rest, finish⟩ =
      outcome ⟨body ++ [last], finish⟩ :: results ⟨rest, finish⟩ := by
  rw [outcome_eq_reported]
  exact whole_statement.reports_append hbody hlast rest

/-- The results of a session are the outcomes of its segments. -/
theorem results_eq_segments (tokens : List Token) (finish : Token) :
    results ⟨tokens, finish⟩ =
      (segments tokens).map fun segment => outcome ⟨segment, finish⟩ := by
  simp only [outcome_eq_reported]
  exact whole_statement.reports_eq_segments tokens

/-- A failed statement is reported at one of its tokens, or at the end if it has no semicolon. -/
theorem outcome_located {tokens : List Token} {d : Diagnostic}
    (hd : outcome ⟨tokens, finish⟩ = .error d) :
    (∃ t ∈ tokens, d.position = t.position) ∨ Unended tokens ∧ d.position = finish.position := by
  cases hr : Rule.statement rules tokens with
  | ok read =>
    rw [outcome_of_ok hr] at hd
    simp at hd
  | error failure =>
    rw [outcome_of_error hr] at hd
    obtain ⟨used, hsplit, hused, -⟩ := whole_statement.fails tokens failure hr
    have hposition : d.position = (failure.rest.headD finish).position := by
      rw [← Except.error.inj hd]
      rfl
    cases hrest : failure.rest with
    | cons t rest =>
      refine Or.inl ⟨t, ?_, ?_⟩
      · rw [hsplit, hrest]
        exact List.mem_append_right used List.mem_cons_self
      · rw [hposition, hrest]
        rfl
    | nil =>
      rw [hrest, List.append_nil] at hsplit
      rw [hrest] at hposition
      rw [← hsplit] at hused
      exact Or.inr ⟨hused, hposition⟩

end Session

/-! ## Streams -/

namespace TokenStream

/-- The segments of a stream as streams.  All of them are closed by the token that closes the whole
stream. -/
def segments (s : TokenStream) : List TokenStream :=
  (SqlForest.segments s.tokens).attach.map fun segment =>
    { tokens := segment.1
      finish := s.finish
      kind_ne_endOfInput := fun t ht =>
        s.kind_ne_endOfInput t (mem_of_mem_segment segment.2 ht)
      finish_kind := s.finish_kind }

/-- What a stream is read into if it is one statement. -/
def outcome (s : TokenStream) : Except Diagnostic Statement :=
  Session.outcome ⟨s.tokens, s.finish⟩

/-- What depends on the tokens of the segments only. -/
theorem map_segments {β : Type} (s : TokenStream) (f : List Token → β) :
    s.segments.map (fun piece => f piece.tokens) = (SqlForest.segments s.tokens).map f := by
  rw [segments, List.map_map]
  exact List.attach_map_val

/-- A member of the segments is a segment of the tokens, closed as the stream is. -/
theorem mem_segments {s piece : TokenStream} (h : piece ∈ s.segments) :
    piece.tokens ∈ SqlForest.segments s.tokens ∧ piece.finish = s.finish := by
  obtain ⟨segment, _, rfl⟩ := List.mem_map.mp h
  exact ⟨segment.2, rfl⟩

theorem map_outcome_segments (s : TokenStream) :
    s.segments.map outcome =
      (SqlForest.segments s.tokens).map fun segment => Session.outcome ⟨segment, s.finish⟩ := by
  rw [← map_segments]
  refine List.map_congr_left fun piece hpiece => ?_
  rw [outcome, (mem_segments hpiece).2]

theorem script_eq_gather (s : TokenStream) : s.script = gather (s.segments.map outcome) := by
  have hscript : s.script = gather (Session.results ⟨s.tokens, s.finish⟩) :=
    Session.script_eq_gather (Session.ofStream s)
  rw [hscript, Session.results_eq_segments, map_outcome_segments]

/-- A segment by itself is a script of one statement. -/
theorem script_of_mem {s piece : TokenStream} (h : piece ∈ s.segments) :
    piece.script = gather [piece.outcome] := by
  rw [script_eq_gather, map_outcome_segments, segments_of_mem (mem_segments h).1]
  rfl

/-- The script of one statement tells what the outcome was. -/
theorem gather_singleton_injective {r r' : Except Diagnostic Statement}
    (h : gather [r] = gather [r']) : r = r' := by
  cases r with
  | ok a =>
    cases r' with
    | ok b =>
      have heq : [a] = [b] := Except.ok.inj h
      rw [List.singleton_inj.mp heq]
    | error e => exact absurd h (by simp [gather])
  | error e =>
    cases r' with
    | ok b => exact absurd h (by simp [gather])
    | error e' =>
      have heq : [e] = [e'] := Except.error.inj h
      rw [List.singleton_inj.mp heq]

/-- The diagnostics of a script. -/
def diagnosticsOf : Except (List Diagnostic) (List Statement) → List Diagnostic
  | .ok _ => []
  | .error diagnostics => diagnostics

theorem flatMap_diagnosticsOf (results : List (Except Diagnostic Statement)) :
    results.flatMap (fun r => diagnosticsOf (gather [r])) = results.filterMap errorOf? := by
  induction results with
  | nil => rfl
  | cons r results ih =>
    rw [List.flatMap_cons, ih]
    cases r with
    | ok a => rfl
    | error e => rfl

/-- A stream is read exactly when all its segments are, into their statements in order. -/
theorem script_ok_iff_segments (s : TokenStream) (statements : List Statement) :
    s.script = .ok statements ↔
      s.segments.map script = statements.map fun statement => .ok [statement] := by
  have hscripts : s.segments.map script = (s.segments.map outcome).map fun r => gather [r] := by
    rw [List.map_map]
    exact List.map_congr_left fun piece hpiece => script_of_mem hpiece
  have hstatements : (statements.map fun statement => Except.ok [statement]) =
      (statements.map Except.ok).map fun r : Except Diagnostic Statement => gather [r] := by
    rw [List.map_map]
    rfl
  rw [script_eq_gather, gather_eq_ok, hscripts, hstatements]
  exact (List.map_inj_right fun _ _ => gather_singleton_injective).symm

/-- A stream fails exactly when some of its segments do, with their diagnostics in order. -/
theorem script_error_iff_segments (s : TokenStream) (diagnostics : List Diagnostic) :
    s.script = .error diagnostics ↔
      diagnostics ≠ [] ∧
        (s.segments.flatMap fun piece => diagnosticsOf piece.script) = diagnostics := by
  have hscripts : (s.segments.flatMap fun piece => diagnosticsOf piece.script) =
      (s.segments.map outcome).flatMap fun r => diagnosticsOf (gather [r]) := by
    rw [List.flatMap_map, List.flatMap_def, List.flatMap_def]
    congr 1
    apply List.map_congr_left
    intro piece hpiece
    rw [script_of_mem hpiece]
  rw [script_eq_gather, gather_eq_error, hscripts, flatMap_diagnosticsOf]

/-- A segment is read into one statement, or has one diagnostic, at one of its tokens or at the end
of input if no semicolon ends it. -/
theorem script_of_segment {s piece : TokenStream} (h : piece ∈ s.segments) :
    (∃ statement, piece.script = .ok [statement]) ∨
      ∃ d, piece.script = .error [d] ∧
        ((∃ t ∈ piece.tokens, d.position = t.position) ∨
          Unended piece.tokens ∧ d.position = s.finish.position) := by
  rw [script_of_mem h]
  cases hr : piece.outcome with
  | ok statement => exact Or.inl ⟨statement, rfl⟩
  | error d =>
    refine Or.inr ⟨d, rfl, ?_⟩
    rw [← (mem_segments h).2]
    exact Session.outcome_located hr

theorem script_of_unended {s piece : TokenStream} (h : piece ∈ s.segments)
    (hun : Unended piece.tokens) : ∃ d, piece.script = .error [d] := by
  obtain ⟨failure, hread, -⟩ := Session.whole_statement.unended hun
  refine ⟨failure.diagnostic piece.finish, ?_⟩
  have hr : piece.outcome = .error (failure.diagnostic piece.finish) :=
    Session.outcome_of_error hread
  rw [script_of_mem h, hr]
  rfl

theorem countP_of_ended {tokens : List Token} (h : Ended tokens) :
    tokens.countP (fun t => t.kind = .semicolon) = 1 := by
  obtain ⟨body, last, rfl, hbody, hlast⟩ := h
  have hnone : body.countP (fun t => t.kind = .semicolon) = 0 := by
    rw [List.countP_eq_zero]
    intro t ht
    simpa using hbody t ht
  rw [List.countP_append, hnone, List.countP_singleton]
  simp [hlast]

/-- A stream that is read has as many statements as semicolons. -/
theorem length_of_script_ok {s : TokenStream} {statements : List Statement}
    (h : s.script = .ok statements) :
    statements.length = s.tokens.countP fun t => t.kind = .semicolon := by
  rw [script_eq_gather, gather_eq_ok, map_outcome_segments] at h
  have hended : ∀ segment ∈ SqlForest.segments s.tokens, Ended segment := by
    intro segment hsegment
    rcases ended_or_unended_of_mem hsegment with hended | ⟨hun, _⟩
    · exact hended
    · obtain ⟨failure, hread, _⟩ := Session.whole_statement.unended hun
      have hmem := List.mem_map_of_mem (f := fun segment => Session.outcome ⟨segment, s.finish⟩)
        hsegment
      rw [h, Session.outcome_of_error hread] at hmem
      obtain ⟨statement, _, hne⟩ := List.mem_map.mp hmem
      simp at hne
  have hone : (SqlForest.segments s.tokens).map (List.countP fun t => t.kind = .semicolon) =
      (SqlForest.segments s.tokens).map fun _ => 1 :=
    List.map_congr_left fun segment hsegment => countP_of_ended (hended segment hsegment)
  have hlength : statements.length = (SqlForest.segments s.tokens).length := by
    have hlen := congrArg List.length h
    simpa using hlen.symm
  calc statements.length
      = ((SqlForest.segments s.tokens).map fun _ => 1).sum := by
        rw [hlength, List.map_const', List.sum_replicate_nat, Nat.mul_one]
    _ = (SqlForest.segments s.tokens).flatten.countP fun t => t.kind = .semicolon := by
        rw [List.countP_flatten, ← hone]
    _ = s.tokens.countP fun t => t.kind = .semicolon := by rw [flatten_segments]

/-- Every segment by itself gives one statement or one diagnostic of its own.  The whole stream
gives the statements of its segments in order if all of them have one, and otherwise exactly the
diagnostics of those that fail, in order. -/
theorem script_by_segments (s : TokenStream) :
    (∀ piece ∈ s.segments,
      (∃ statement, piece.script = .ok [statement]) ∨
        ∃ d, piece.script = .error [d] ∧
          ((∃ t ∈ piece.tokens, d.position = t.position) ∨
            Unended piece.tokens ∧ d.position = s.finish.position)) ∧
    (∀ statements, s.script = .ok statements ↔
      s.segments.map script = statements.map fun statement => .ok [statement]) ∧
    (∀ diagnostics, s.script = .error diagnostics ↔
      diagnostics ≠ [] ∧
        (s.segments.flatMap fun piece => diagnosticsOf piece.script) = diagnostics) ∧
    (∀ statements, s.script = .ok statements →
      statements.length = s.tokens.countP fun t => t.kind = .semicolon) ∧
    (∀ piece ∈ s.segments, Unended piece.tokens → ∃ d, piece.script = .error [d]) := by
  refine ⟨?_, script_ok_iff_segments s, script_error_iff_segments s, ?_, ?_⟩
  · intro piece hpiece
    exact script_of_segment hpiece
  · intro statements h
    exact length_of_script_ok h
  · intro piece hpiece hun
    exact script_of_unended hpiece hun

end TokenStream

end SqlForest
