import Mathlib.Data.List.Forall2
import SqlForest.Proofs.Grammar.Numbers
import SqlForest.Proofs.Script.Faults
import SqlForest.Proofs.Token.Digits

/-!
# Numbers are exact

The scanner and the grammar read the digits of a number each on its own.  Both of them go by the
value and not by the number of digits, and so they agree about every text (`numbers_exact`).
-/

namespace SqlForest

open Grammar

/-- A run of digits of a text, behind some characters and in front of others, that is scanned as a
number of its own and is not lumped together with a word. -/
structure NumberRun (source : String) (before digits after : List Char) : Prop where
  ne_nil : digits ≠ []
  isDigit : digits.all Char.isDigit
  begins : ((Scanner.start source).feedAll before).mode ≠ .digits
  scanned : ((Scanner.start source).feedAll (before ++ digits)).mode = .digits
  ends : after.head?.any isWordPart = false

theorem Scanner.position_ofText (source : String) (text : List Char) :
    (ofText source (String.ofList text)).position = (Position.origin source).afterAll text := by
  rw [(comes_ofText source (String.ofList text)).position, String.toList_ofList]
  rfl

namespace NumberRun

variable {source : String} {before digits after : List Char}

/-- Behind the digits the scan goes on as from their end, with one token or one fault more than in
front of them. -/
theorem exists_comes (h : NumberRun source before digits after) :
    ∃ t, Scanner.ofText source (String.ofList (before ++ digits ++ after)) = t.run after ∧
      (Scanner.ofText source (String.ofList before)).Comes t digits
        [numberFinding ((Position.origin source).afterAll before) digits] := by
  have hscanned := h.scanned
  rw [Scanner.feedAll, List.foldl_append] at hscanned
  obtain ⟨t, hrun, hcomes⟩ := Scanner.run_digits h.ne_nil h.isDigit h.ends h.begins hscanned
  have hfront : Scanner.ofText source (String.ofList before) =
      ((Scanner.start source).feedAll before).finish := by
    rw [Scanner.ofText, String.toList_ofList]
  refine ⟨t, ?_, ?_⟩
  · rw [← hrun, ← Scanner.run_append, Scanner.ofText, String.toList_ofList, List.append_assoc]
    rfl
  · rw [← hfront, Scanner.position_ofText] at hcomes
    exact hcomes

/-- Digits of 63 bits are one token more. -/
theorem of_le {t : Scanner} {p : Position} {front : Scanner}
    (h : front.Comes t digits [numberFinding p digits])
    (hle : Integer.decimal digits ≤ 2 ^ 63 - 1) :
    t.tokens = ⟨.number, String.ofList digits, p⟩ :: front.tokens ∧
      t.diagnostics = front.diagnostics := by
  have htokens := h.tokens
  have hdiagnostics := h.diagnostics
  rw [numberFinding, if_pos hle] at htokens hdiagnostics
  exact ⟨htokens, hdiagnostics⟩

/-- Digits of more bits are one fault more. -/
theorem of_gt {t : Scanner} {p : Position} {front : Scanner}
    (h : front.Comes t digits [numberFinding p digits])
    (hgt : 2 ^ 63 - 1 < Integer.decimal digits) :
    t.tokens = front.tokens ∧
      t.diagnostics = ⟨p, .lexical (.numberTooLong (String.ofList digits))⟩ ::
        front.diagnostics := by
  have htokens := h.tokens
  have hdiagnostics := h.diagnostics
  rw [numberFinding, if_neg (Nat.not_le_of_lt hgt)] at htokens hdiagnostics
  exact ⟨htokens, hdiagnostics⟩

end NumberRun

/-! ## What is found stays found -/

namespace TokenStream

variable {source text : String} {t : Scanner} {after : List Char}

theorem mem_of_run {s : TokenStream} (hs : ofText source text = .ok s) (ht : t.mode = .idle)
    (hrun : Scanner.ofText source text = t.run after) {u : Token} (hu : u ∈ t.tokens) :
    u ∈ s.tokens := by
  have htokens := Scanner.tokens_ofText source text
  rw [(ofText_eq_ok.mp hs).1, filterMap_toOption_map_ok, hrun,
    (Scanner.comes_run ht after).tokens] at htokens
  rw [← htokens]
  exact List.mem_reverse.mpr (List.mem_append_right _ hu)

theorem exists_error_of_run (ht : t.mode = .idle)
    (hrun : Scanner.ofText source text = t.run after) {d : Diagnostic} (hd : d ∈ t.diagnostics) :
    ∃ ds, ofText source text = .error ds ∧ d ∈ ds := by
  have hdiagnostics := Scanner.diagnostics_ofText source text
  rw [hrun, (Scanner.comes_run ht after).diagnostics] at hdiagnostics
  have hmem : d ∈ (findingsOf source text).filterMap errorOf? := by
    rw [← hdiagnostics]
    exact List.mem_reverse.mpr (List.mem_append_right _ hd)
  exact ⟨_, ofText_eq_error.mpr ⟨List.ne_nil_of_mem hmem, rfl⟩, hmem⟩

/-- The numbers in the statements of a stream are what its number tokens are literals of. -/
theorem literals_of_script {s : TokenStream} {forest : List Statement} (h : s.script = .ok forest) :
    List.Forall₂ (fun (t : Token) value => Integer.IsLiteral t.lexeme value)
      (s.tokens.filter fun t => t.kind = .number) (forest.flatMap Statement.numbers) := by
  have hsentences : Sentences maxDepth s.tokens forest := by
    have hgather : gather (Session.ofStream s).results = .ok forest := by
      rw [← Session.script_eq_gather]
      exact h
    exact sentences_of_allReadings (Session.results_eq_map_ok.mp (gather_eq_ok.mp hgather))
  have hvalues := hsentences.numbers
  rw [numberValues, ← List.forall₂_eq_eq_eq, List.forall₂_map_left_iff,
    List.forall₂_map_right_iff] at hvalues
  exact hvalues.imp fun t value hvalue => Integer.ofText?_eq_some.mp hvalue

/-- Every number token of a text is a literal. -/
theorem exists_literal_of_ofText {s : TokenStream} (h : ofText source text = .ok s) {t : Token}
    (ht : t ∈ s.tokens) (hkind : t.kind = .number) : ∃ value, Integer.IsLiteral t.lexeme value := by
  have hnumber : Lexeme.WellFormed ⟨.number, t.lexeme⟩ := hkind ▸ wellFormed_of_ofText h t ht
  exact ⟨_, Integer.ofText?_eq_some.mp hnumber.value.2.2.1⟩

end TokenStream

/-- Digits that are scanned as a number of their own are one token if their decimal value has 63
bits, and one fault if not.  The grammar reads a number token of any lexeme as the number that it is
a literal of, with at most one sign and 64 bits, and fails in front of it if there is none.  So it
reads every number that the scanner finds, and the numbers in statements are the values of their
number tokens, one by one. -/
theorem numbers_exact :
    (∀ source before digits after, NumberRun source before digits after →
      let p := (Position.origin source).afterAll before
      let front := Scanner.ofText source (String.ofList before)
      let text := String.ofList (before ++ digits ++ after)
      ∃ t : Scanner, Scanner.ofText source text = t.run after ∧ t.mode = .idle ∧
        t.position = p.afterAll digits ∧
        (Integer.decimal digits ≤ 2 ^ 63 - 1 →
          t.tokens = ⟨.number, String.ofList digits, p⟩ :: front.tokens ∧
          t.diagnostics = front.diagnostics ∧
          ∀ s, TokenStream.ofText source text = .ok s →
            ⟨.number, String.ofList digits, p⟩ ∈ s.tokens) ∧
        (2 ^ 63 - 1 < Integer.decimal digits →
          t.tokens = front.tokens ∧
          t.diagnostics = ⟨p, .lexical (.numberTooLong (String.ofList digits))⟩ ::
            front.diagnostics ∧
          ∃ ds, TokenStream.ofText source text = .error ds ∧
            ⟨p, .lexical (.numberTooLong (String.ofList digits))⟩ ∈ ds)) ∧
    (∀ below t rest, t.kind = .number →
      (∀ e left, Rule.factor below (t :: rest) = .ok (e, left) ↔
        ∃ value, Integer.IsLiteral t.lexeme value ∧ e = .number value ∧ left = rest) ∧
      ((∀ value, ¬ Integer.IsLiteral t.lexeme value) →
        ∀ p : Phrase, (p = .expression → ∃ lower, below = Rules.above lower) →
          p.rule below (t :: rest) = .error ⟨t :: rest, .numberTooLong⟩)) ∧
    (∀ source text,
      (∀ s, TokenStream.ofText source text = .ok s → ∀ t ∈ s.tokens, t.kind = .number →
        ∃ value, Integer.IsLiteral t.lexeme value) ∧
      ∀ ds, readScript source text = .error ds → ∀ d ∈ ds, ∀ found,
        d.fault ≠ .syntactic .numberTooLong found) ∧
    ∀ (s : TokenStream) forest, s.script = .ok forest →
      List.Forall₂ (fun (t : Token) value => Integer.IsLiteral t.lexeme value)
        (s.tokens.filter fun t => t.kind = .number) (forest.flatMap Statement.numbers) := by
  refine ⟨?_, ?_, ?_, fun s forest => TokenStream.literals_of_script⟩
  · intro source before digits after h p front text
    obtain ⟨t, hrun, hcomes⟩ := h.exists_comes
    refine ⟨t, hrun, hcomes.mode, ?_, ?_, ?_⟩
    · rw [hcomes.position, Scanner.position_ofText]
    · intro hle
      obtain ⟨htokens, hdiagnostics⟩ := NumberRun.of_le hcomes hle
      refine ⟨htokens, hdiagnostics, ?_⟩
      intro s hs
      refine TokenStream.mem_of_run hs hcomes.mode hrun ?_
      rw [htokens]
      exact List.mem_cons_self
    · intro hgt
      obtain ⟨htokens, hdiagnostics⟩ := NumberRun.of_gt hcomes hgt
      refine ⟨htokens, hdiagnostics, TokenStream.exists_error_of_run hcomes.mode hrun ?_⟩
      rw [hdiagnostics]
      exact List.mem_cons_self
  · intro below t rest ht
    exact ⟨fun e left => Rule.factor_number ht, fun hnone p hp => p.rule_of_refused ht hnone hp⟩
  · intro source text
    refine ⟨fun s hs t ht hkind => TokenStream.exists_literal_of_ofText hs ht hkind, ?_⟩
    intro ds h d hd found
    exact TokenStream.fault_ne_numberTooLong_of_readScript h hd found

/-- The greatest number of 63 bits behind zeros and an operator, and the next one. -/
theorem numbers_exact_limit :
    NumberRun "f" "x<".toList "009223372036854775807".toList ";".toList ∧
      NumberRun "f" "x<".toList "9223372036854775808".toList [] ∧
      (∃ ds, TokenStream.ofText "f" "x<9223372036854775808" = .error ds ∧
        ⟨⟨"f", 1, 3⟩, .lexical (.numberTooLong "9223372036854775808")⟩ ∈ ds) ∧
      ∀ s, TokenStream.ofText "f" "x<009223372036854775807;" = .ok s →
        ⟨.number, "009223372036854775807", ⟨"f", 1, 3⟩⟩ ∈ s.tokens := by
  have hshort : NumberRun "f" "x<".toList "009223372036854775807".toList ";".toList :=
    ⟨by decide, by decide, by decide, by decide, by decide⟩
  have hlong : NumberRun "f" "x<".toList "9223372036854775808".toList [] :=
    ⟨by decide, by decide, by decide, by decide, by decide⟩
  obtain ⟨_, -, -, -, hle, -⟩ := numbers_exact.1 _ _ _ _ hshort
  obtain ⟨_, -, -, -, -, hgt⟩ := numbers_exact.1 _ _ _ _ hlong
  exact ⟨hshort, hlong, (hgt (by decide)).2.2, (hle (by decide)).2.2⟩

end SqlForest
