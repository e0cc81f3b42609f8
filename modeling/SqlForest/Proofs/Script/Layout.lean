import SqlForest.Proofs.Script.Faults
import SqlForest.Proofs.Script.LineBreak

/-!
# Scripts without their layout

The statements of a script are a matter of its lexemes: blanks, line ends and the name of the source
only move tokens.  What they change about a script is where its faults are reported
(`TokenStream.script_without_layout`).

Two streams of the same lexemes need not be moved into one another, because tokens that are equal in
one of them may have different positions in the other.  So both of them are taken from a third one,
in which the position of a token is its number (`TokenStream.numbered`).  There no two positions are
the same, and a map of positions can bring every token to any place (`TokenStream.placeOf`).
-/

namespace SqlForest

/-- The position that stands for the token with a number. -/
def Position.ofIndex (index : Nat) : Position :=
  ⟨"", index, 0⟩

namespace TokenStream

/-- What the tokens of a stream are, wherever they stand. -/
def lexemes (s : TokenStream) : List Lexeme :=
  s.toList.map Token.toLexeme

/-- The token with an index. -/
def tokenAt (s : TokenStream) (index : Nat) : Token :=
  s.toList.getD index s.finish

/-- The diagnostic of a fault at the token with an index. -/
def diagnosticAt (s : TokenStream) (report : Nat × Fault) : Diagnostic :=
  ⟨(s.tokenAt report.1).position, report.2⟩

/-- What is read of the one stream is what is read of the other, or the same faults are found at the
same tokens, which the messages quote. -/
inductive Alike (s t : TokenStream) :
    Except (List Diagnostic) (List Statement) → Except (List Diagnostic) (List Statement) → Prop
  | read (statements : List Statement) : Alike s t (.ok statements) (.ok statements)
  | failed (reports : List (Nat × Fault))
      (hreports : ∀ report ∈ reports, report.1 < s.toList.length ∧
        ∃ fault, report.2 = .syntactic fault (s.tokenAt report.1).quoted) :
      Alike s t (.error (reports.map s.diagnosticAt)) (.error (reports.map t.diagnosticAt))

/-! ## Numbered streams -/

/-- The stream with numbers for positions. -/
def numbered (s : TokenStream) : TokenStream where
  tokens := (s.tokens.map Token.toLexeme).mapIdx fun index l => l.token (.ofIndex index)
  finish := s.finish.toLexeme.token (.ofIndex s.tokens.length)
  kind_ne_endOfInput := by
    intro t ht
    obtain ⟨index, h, rfl⟩ := List.mem_mapIdx.mp ht
    obtain ⟨u, hu, hlexeme⟩ := List.mem_map.mp (List.getElem_mem h)
    rw [← hlexeme]
    exact s.kind_ne_endOfInput u hu
  finish_kind := s.finish_kind

/-- The position in the stream that a number stands for. -/
def placeOf (s : TokenStream) (p : Position) : Position :=
  (s.tokenAt p.line).position

theorem tokenAt_of_lt {s : TokenStream} {index : Nat} (h : index < s.tokens.length) :
    s.tokenAt index = s.tokens[index] := by
  rw [tokenAt, toList, List.getD_eq_getElem?_getD, List.getElem?_append_left h,
    List.getElem?_eq_getElem h]
  rfl

theorem tokenAt_length (s : TokenStream) : s.tokenAt s.tokens.length = s.finish := by
  rw [tokenAt, toList, List.getD_eq_getElem?_getD, List.getElem?_append_right (Nat.le_refl _),
    Nat.sub_self]
  rfl

/-- Every token of a stream is the one with its number, brought to its place. -/
theorem map_placeOf_numbered (s : TokenStream) :
    s.numbered.tokens.map (Token.move s.placeOf) = s.tokens := by
  refine List.ext_getElem ?_ ?_
  · simp [numbered]
  · intro index _ h
    rw [List.getElem_map]
    simp only [numbered, List.getElem_mapIdx, List.getElem_map]
    show Token.mk _ _ (s.tokenAt index).position = _
    rw [tokenAt_of_lt h]
    rfl

theorem placeOf_numbered_finish (s : TokenStream) :
    s.numbered.finish.move s.placeOf = s.finish := by
  show Token.mk _ _ (s.tokenAt s.tokens.length).position = _
  rw [tokenAt_length]
  rfl

/-- Streams of the same lexemes are the same but for their positions. -/
theorem numbered_congr {s t : TokenStream} (h : s.lexemes = t.lexemes) :
    s.numbered = t.numbered := by
  rw [lexemes, lexemes, toList, toList, List.map_append, List.map_append] at h
  obtain ⟨htokens, hfinish⟩ := List.append_inj' h rfl
  have hlength : s.tokens.length = t.tokens.length := by
    simpa using congrArg List.length htokens
  refine toList_injective ?_
  simp only [toList, numbered]
  rw [htokens, List.singleton_inj.mp hfinish, hlength]

/-- A script is that of the numbered tokens, reported where the tokens are. -/
theorem script_eq_numbered (s : TokenStream) :
    s.script = s.numbered.script.mapError (List.map (Diagnostic.move s.placeOf)) := by
  have hresults := Session.results_move s.placeOf s.numbered.tokens s.numbered.finish
  rw [map_placeOf_numbered, placeOf_numbered_finish] at hresults
  rw [script_eq_gather_results, hresults, gather_mapError, ← script_eq_gather_results]

/-! ## Faults of numbered streams -/

/-- The number of a fault is the index of the token that its message quotes. -/
theorem index_of_numbered {s : TokenStream} {ds : List Diagnostic}
    (h : s.numbered.script = .error ds) {d : Diagnostic} (hd : d ∈ ds) :
    d.position.line < s.toList.length ∧
      ∃ fault, d.fault = .syntactic fault (s.tokenAt d.position.line).quoted := by
  obtain ⟨fault, next, rfl, -, hnext⟩ := exists_describes h hd
  have hlength : s.toList.length = s.tokens.length + 1 := List.length_append
  cases next with
  | none =>
    show s.tokens.length < s.toList.length ∧ ∃ f, _ = Fault.syntactic f (s.tokenAt _).quoted
    rw [hlength]
    refine ⟨Nat.lt_succ_self _, fault, ?_⟩
    show Fault.syntactic fault _ = .syntactic fault (s.tokenAt s.tokens.length).quoted
    rw [tokenAt_length]
    rfl
  | some t =>
    obtain ⟨index, hin, rfl⟩ := List.mem_mapIdx.mp (hnext t rfl)
    have hindex : index < s.tokens.length := by simpa using hin
    show index < s.toList.length ∧ ∃ f, _ = Fault.syntactic f (s.tokenAt index).quoted
    rw [hlength, tokenAt_of_lt hindex]
    refine ⟨Nat.lt_succ_of_lt hindex, fault, ?_⟩
    simp only [Option.getD_some, List.getElem_map]
    rfl

/-- Streams of the same lexemes are read alike, and so are texts that are cut into such streams. -/
theorem script_without_layout {s t : TokenStream} (h : s.lexemes = t.lexemes) :
    Alike s t s.script t.script ∧
      ∀ source text source' text', ofText source text = .ok s → ofText source' text' = .ok t →
        Alike s t (readScript source text) (readScript source' text') := by
  have hscripts : Alike s t s.script t.script := by
    rw [script_eq_numbered s, script_eq_numbered t, ← numbered_congr h]
    cases hnumbered : s.numbered.script with
    | ok statements => exact .read statements
    | error ds =>
      have hfailed := Alike.failed (s := s) (t := t)
        (ds.map fun d => (d.position.line, d.fault)) (by
          intro report hreport
          obtain ⟨d, hd, rfl⟩ := List.mem_map.mp hreport
          exact index_of_numbered hnumbered hd)
      rw [List.map_map, List.map_map] at hfailed
      exact hfailed
  refine ⟨hscripts, ?_⟩
  intro source text source' text' hs ht
  rw [readScript, readScript, hs, ht]
  exact hscripts

/-- Two faults, on one line and on several. -/
theorem readScript_without_layout :
    ∃ s t : TokenStream, s.lexemes = t.lexemes ∧ ofText "f" "USE 1;USE" = .ok s ∧
      ofText "g" "\tUSE\n1\n; USE  " = .ok t ∧
      Alike s t (readScript "f" "USE 1;USE") (readScript "g" "\tUSE\n1\n; USE  ") := by
  have hs : ∃ s, ofText "f" "USE 1;USE" = .ok s ∧ ∃ t, ofText "g" "\tUSE\n1\n; USE  " = .ok t ∧
      s.lexemes = t.lexemes := by
    refine ⟨⟨[⟨.keyword, "USE", ⟨"f", 1, 1⟩⟩, ⟨.number, "1", ⟨"f", 1, 5⟩⟩,
      ⟨.semicolon, ";", ⟨"f", 1, 6⟩⟩, ⟨.keyword, "USE", ⟨"f", 1, 7⟩⟩],
      ⟨.endOfInput, "", ⟨"f", 1, 10⟩⟩, by decide, rfl⟩, rfl,
      ⟨[⟨.keyword, "USE", ⟨"g", 1, 2⟩⟩, ⟨.number, "1", ⟨"g", 2, 1⟩⟩,
      ⟨.semicolon, ";", ⟨"g", 3, 1⟩⟩, ⟨.keyword, "USE", ⟨"g", 3, 3⟩⟩],
      ⟨.endOfInput, "", ⟨"g", 3, 8⟩⟩, by decide, rfl⟩, rfl, rfl⟩
  obtain ⟨s, hs, t, ht, hlexemes⟩ := hs
  exact ⟨s, t, hlexemes, hs, ht,
    (script_without_layout hlexemes).2 "f" "USE 1;USE" "g" "\tUSE\n1\n; USE  " hs ht⟩

end TokenStream

end SqlForest
