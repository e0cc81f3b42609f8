import SqlForest.Proofs.Printing.Contents
import SqlForest.Proofs.Script.Faults
import SqlForest.Proofs.Token.Spelling

/-!
# Messages are on one line

A message quotes characters and lexemes of the text as they are.  None of them ends a line: a
character that ends a line is blank, so it is no token and part of no word, number or operator; and
behind a backslash, as anywhere in a string, it ends the string with a fault that quotes nothing.
So whatever a text holds, the messages of its diagnostics are on one line
(`onOneLine_of_readScript`).
-/

namespace SqlForest

/-- No character of the text ends a line. -/
def OnOneLine (text : String) : Prop :=
  ∀ c ∈ text.toList, ¬ isLineEnd c

instance (text : String) : Decidable (OnOneLine text) :=
  List.decidableBAll (fun c => ¬ isLineEnd c) text.toList

/-! ## Texts on one line -/

section Texts

variable {c : Char} {a b : String}

theorem OnOneLine.append (ha : OnOneLine a) (hb : OnOneLine b) : OnOneLine (a ++ b) := by
  intro c hc
  rw [String.toList_append] at hc
  rcases List.mem_append.mp hc with hc | hc
  · exact ha c hc
  · exact hb c hc

theorem OnOneLine.newline_not_mem (h : OnOneLine a) : '\n' ∉ a.toList :=
  fun hc => h '\n' hc rfl

theorem OnOneLine.return_not_mem (h : OnOneLine a) : '\r' ∉ a.toList :=
  fun hc => h '\r' hc rfl

theorem not_isLineEnd_of_isWordPart (h : isWordPart c) : ¬ isLineEnd c :=
  fun hend => not_isWordPart_of_isBlank (isBlank_of_isLineEnd hend) h

theorem onOneLine_toString (h : ¬ isLineEnd c) : OnOneLine c.toString := by
  intro d hd
  rw [Char.toString_eq_singleton, String.toList_singleton, List.mem_singleton] at hd
  rwa [hd]

theorem onOneLine_ofList {text : List Char} (h : ∀ c ∈ text, ¬ isLineEnd c) :
    OnOneLine (String.ofList text) := by
  intro c hc
  rw [String.toList_ofList] at hc
  exact h c hc

theorem onOneLine_naturalText (n : Nat) : OnOneLine (Integer.naturalText n) := by
  intro c hc
  exact not_isLineEnd_of_isDigit (List.all_eq_true.mp (Integer.naturalText_isDigit n) c hc)

theorem Keyword.onOneLine_spelling (word : Keyword) : OnOneLine word.spelling := by
  obtain ⟨hstart, hparts⟩ := isWord_spelling word
  intro c hc
  exact not_isLineEnd_of_isWordPart (isWordPart_of_mem hstart hparts hc)

/-- A well-formed lexeme has no line end. -/
theorem Lexeme.WellFormed.onOneLine {l : Lexeme} (h : l.WellFormed) : OnOneLine l.text := by
  cases h with
  | keyword word => exact word.onOneLine_spelling
  | identifier hname =>
    intro c hc
    exact not_isLineEnd_of_isWordPart (hname.isWordPart_of_mem hc)
  | number _ hdigits _ =>
    intro c hc
    exact not_isLineEnd_of_isDigit (List.all_eq_true.mp hdigits c hc)
  | string hbody =>
    obtain ⟨hnewline, hreturn⟩ := (isEscaped_of_isStringBody hbody).lineEnd_not_mem
    intro c hc hend
    rcases isLineEnd_iff.mp hend with rfl | rfl
    · exact hreturn hc
    · exact hnewline hc
  | operator hmem =>
    intro c hc
    exact not_isLineEnd_of_isOperatorChar (isOperatorChar_of_mem_operators hmem hc)
  | @punctuation d kind hd =>
    refine onOneLine_ofList ?_
    rw [List.forall_mem_singleton]
    exact not_isLineEnd_of_not_isBlank (isSign_iff.mp (isSign_of_punctuation? hd).1).1

end Texts

/-! ## Messages of lexical faults -/

section Lexical

variable {p : Position} {d : Diagnostic}

theorem onOneLine_digits {digits left : List Char} (hdigits : digits.all Char.isDigit)
    (h : digitsFinding p digits left = .error d) : OnOneLine d.message := by
  unfold digitsFinding at h
  split at h
  · cases h
    exact (by decide : OnOneLine LexicalFault.lumpedNumber.message)
  · split at h
    · cases h
    · cases h
      have hquoted : OnOneLine (String.ofList digits) := by
        refine onOneLine_ofList ?_
        intro c hc
        exact not_isLineEnd_of_isDigit (List.all_eq_true.mp hdigits c hc)
      exact ((by decide : OnOneLine "Number too long: `").append hquoted).append (by decide)

theorem onOneLine_operator {run : List Char} (hrun : run.all isOperatorChar)
    (h : operatorFinding p run = .error d) : OnOneLine d.message := by
  unfold operatorFinding at h
  split at h
  · cases h
  · cases h
    have hquoted : OnOneLine (String.ofList run) := by
      refine onOneLine_ofList ?_
      intro c hc
      exact not_isLineEnd_of_isOperatorChar (List.all_eq_true.mp hrun c hc)
    exact ((by decide : OnOneLine "Invalid operator: `").append hquoted).append (by decide)

theorem onOneLine_single {c : Char} (hc : ¬ Text.isBlank c)
    (h : singleFinding p c = .error d) : OnOneLine d.message := by
  unfold singleFinding at h
  split at h
  · cases h
  · cases h
    have hquoted := onOneLine_toString (not_isLineEnd_of_not_isBlank hc)
    exact ((by decide : OnOneLine "Invalid token: `").append hquoted).append (by decide)

/-- No character of the body of a string ends a line. -/
theorem not_isLineEnd_of_mem_quotedBody {c : Char} {text : List Char} (hc : c ∈ quotedBody text) :
    ¬ isLineEnd c := by
  fun_induction quotedBody text with
  | case1 => cases hc
  | case2 e cs hend =>
    rw [List.mem_singleton.mp hc]
    decide
  | case3 e cs hend ih =>
    rcases List.mem_cons.mp hc with rfl | hc
    · decide
    · rcases List.mem_cons.mp hc with rfl | hc
      · exact hend
      · exact ih hc
  | case4 e cs hpair hend => cases hc
  | case5 e cs hpair hend ih =>
    rcases List.mem_cons.mp hc with rfl | hc
    · exact fun hline => hend (Or.inr hline)
    · exact ih hc

theorem onOneLine_escapeFaults {body : List Char} (hbody : ∀ c ∈ body, ¬ isLineEnd c)
    (h : d ∈ escapeFaults p body) : OnOneLine d.message := by
  fun_induction escapeFaults p body with
  | case1 => cases h
  | case2 p c cs later hescape ih =>
    obtain ⟨-, -, hcs⟩ := List.forall_mem_cons.mp hbody |>.imp_right List.forall_mem_cons.mp
    exact ih hcs h
  | case3 p c cs later hescape ih =>
    obtain ⟨-, hc, hcs⟩ := List.forall_mem_cons.mp hbody |>.imp_right List.forall_mem_cons.mp
    rcases List.mem_cons.mp h with rfl | h
    · exact (by decide : OnOneLine "Invalid escape sequence: \\").append (onOneLine_toString hc)
    · exact ih hcs h
  | case4 p c cs hpair ih => exact ih (List.forall_mem_cons.mp hbody).2 h

theorem onOneLine_stringEnd {body rest : List Char}
    (h : .error d ∈ (stringEnd p body rest).found) : OnOneLine d.message := by
  unfold stringEnd at h
  split at h
  · cases List.mem_singleton.mp h
    exact (by decide : OnOneLine LexicalFault.unterminatedString.message)
  · split at h
    · cases List.mem_singleton.mp h
    · cases List.mem_singleton.mp h
      exact (by decide : OnOneLine LexicalFault.multilineString.message)

theorem onOneLine_munch {c : Char} {text : List Char} (h : .error d ∈ (munch p c text).found) :
    OnOneLine d.message := by
  revert h
  refine munch_cases (P := fun m => .error d ∈ m.found → OnOneLine d.message) ?_ ?_ ?_ ?_ ?_ ?_
  · intro _ h
    cases h
  · intro _ _ h
    cases List.mem_singleton.mp h
  · intro _ hc h
    refine onOneLine_digits ?_ (List.mem_singleton.mp h).symm
    rw [List.all_cons, hc, List.all_takeWhile]
    rfl
  · intro _ h
    rcases List.mem_append.mp h with h | h
    · obtain ⟨_, hmem, hd⟩ := List.mem_map.mp h
      cases hd
      exact onOneLine_escapeFaults (fun _ => not_isLineEnd_of_mem_quotedBody) hmem
    · exact onOneLine_stringEnd h
  · intro _ hc h
    refine onOneLine_operator ?_ (List.mem_singleton.mp h).symm
    rw [List.all_cons, hc, List.all_takeWhile]
    rfl
  · intro hblank _ h
    exact onOneLine_single hblank (List.mem_singleton.mp h).symm

theorem onOneLine_findings {text : List Char} (h : .error d ∈ findings p text) :
    OnOneLine d.message := by
  fun_induction findings p text with
  | case1 => cases h
  | case2 p c text m =>
    rename_i ih
    rcases List.mem_append.mp h with h | h
    · exact onOneLine_munch h
    · exact ih h

end Lexical

/-! ## Messages of syntactic faults -/

theorem Expectation.onOneLine_text (what : Expectation) : OnOneLine what.text := by
  cases what with
  | statement | expression => decide
  | kind k => cases k <;> decide
  | keyword k =>
    exact ((by decide : OnOneLine "keyword `").append k.onOneLine_spelling).append (by decide)

/-- A message has the quoted token between texts that do not depend on it. -/
theorem SyntaxFault.exists_around (fault : SyntaxFault) :
    ∃ before behind : String, OnOneLine before ∧ OnOneLine behind ∧
      ∀ found : Quoted, fault.message found = before ++ found.text ++ behind := by
  have hlast : ∀ {before : String}, OnOneLine before → ∃ front behind : String,
      OnOneLine front ∧ OnOneLine behind ∧
        ∀ found : Quoted, before ++ found.text = front ++ found.text ++ behind := by
    intro before hbefore
    refine ⟨before, "", hbefore, by decide, ?_⟩
    intro found
    rw [String.append_empty]
  cases fault with
  | expected what =>
    exact hlast (((by decide : OnOneLine "Expected ").append what.onOneLine_text).append
      (by decide : OnOneLine ", but found "))
  | unexpectedKeyword => exact hlast (by decide)
  | notASign => exact hlast (by decide)
  | numberTooLong => exact hlast (by decide)
  | nestedTooDeeply =>
    refine ⟨"Expression nested too deeply at ", ", the maximum depth is "
      ++ Integer.naturalText maxDepth, by decide,
      (by decide : OnOneLine ", the maximum depth is ").append (onOneLine_naturalText maxDepth), ?_⟩
    intro found
    exact String.append_assoc

theorem Quoted.onOneLine_text {t : Token} (h : OnOneLine t.lexeme) : OnOneLine t.quoted.text := by
  unfold Token.quoted
  split
  · decide
  · exact ((by decide : OnOneLine "`").append h).append (by decide)

/-! ## Messages of texts -/

/-- Every message about a text is on one line. -/
theorem onOneLine_of_readScript {source text : String} {ds : List Diagnostic}
    (h : readScript source text = .error ds) {d : Diagnostic} (hd : d ∈ ds) :
    OnOneLine d.message := by
  unfold readScript at h
  split at h
  · rename_i s hs
    obtain ⟨fault, next, rfl, -, hnext⟩ := TokenStream.exists_describes h hd
    obtain ⟨before, behind, hbefore, hbehind, hmessage⟩ := fault.exists_around
    have hlexeme : OnOneLine (next.getD s.finish).lexeme := by
      cases next with
      | none =>
        rw [Option.getD_none, (TokenStream.ofText_eq_ok.mp hs).2]
        exact (by decide : OnOneLine "")
      | some t => exact (TokenStream.wellFormed_of_ofText hs t (hnext t rfl)).onOneLine
    show OnOneLine (fault.message (next.getD s.finish).quoted)
    rw [hmessage]
    exact (hbefore.append (Quoted.onOneLine_text hlexeme)).append hbehind
  · rename_i ds' hs
    cases h
    rw [← (TokenStream.ofText_eq_error.mp hs).2] at hd
    obtain ⟨found, hfound, herror⟩ := List.mem_filterMap.mp hd
    cases found with
    | ok t => cases herror
    | error e =>
      cases herror
      exact onOneLine_findings hfound

end SqlForest
