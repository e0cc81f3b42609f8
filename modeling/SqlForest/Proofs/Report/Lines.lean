import Mathlib.Data.List.Basic
import SqlForest.Proofs.Report.Messages
import SqlForest.Report

/-!
# Reports are read back

The report of a failure has a line for each diagnostic and a last one that counts them.  Since
neither a message nor the name of the source ends a line, the lines of the report are just these
(`Outcome.report_of_failed`).  `Report.entries?` reads the line, the column and the message of every
fault from a report, given the name of the source.
-/

namespace SqlForest

/-! ## Reading -/

namespace Report

/-- What a line of a report says about a fault. -/
structure Entry where
  line : Nat
  column : Nat
  message : String
deriving DecidableEq, Repr

/-- Reads a number and the mark behind it. -/
def number? (mark text : List Char) : Option (Nat × List Char) :=
  (Integer.ofDigits? (text.takeWhile Char.isDigit)).bind fun n =>
    ((text.dropWhile Char.isDigit).dropPrefix? mark).map fun rest => (n, rest)

/-- Reads a line about a fault in the source. -/
def ofLine? (source : String) (line : List Char) : Option Entry := do
  let rest ← line.dropPrefix? ("[ERROR] " ++ source ++ ":[").toList
  let (row, rest) ← number? [','] rest
  let (column, rest) ← number? [']', ' '] rest
  some ⟨row, column, String.ofList rest⟩

/-- Reads all lines of a report but the last one. -/
def entries? (source report : String) : Option (List Entry) :=
  (report.toList.splitOn '\n').dropLast.mapM (ofLine? source)

end Report

/-- What the line of a report says about a diagnostic. -/
def Diagnostic.entry (d : Diagnostic) : Report.Entry :=
  ⟨d.position.line, d.position.column, d.message⟩

namespace Report

/-- A number ends at a mark that does not begin with a digit. -/
theorem number?_naturalText (mark : List Char) (hmark : mark.head?.any Char.isDigit = false)
    (hne : mark ≠ []) (n : Nat) (rest : List Char) :
    number? mark ((Integer.naturalText n).toList ++ (mark ++ rest)) = some (n, rest) := by
  have hdigits := Integer.naturalText_isDigit n
  have hend : (mark ++ rest).head?.any Char.isDigit = false := by
    rwa [List.head?_append_of_ne_nil _ hne]
  rw [number?, takeWhile_append_of_ends hdigits hend, dropWhile_append_of_ends hdigits hend,
    Integer.ofDigits?_naturalText, List.dropPrefix?_append_of_beq rest (beq_self_eq_true mark)]
  rfl

theorem toList_reportLine (d : Diagnostic) :
    d.reportLine.toList = ("[ERROR] " ++ d.position.source ++ ":[").toList ++
      ((Integer.naturalText d.position.line).toList ++ ([','] ++
        ((Integer.naturalText d.position.column).toList ++ ([']', ' '] ++ d.message.toList)))) := by
  simp only [Diagnostic.reportLine, Diagnostic.reportLineAt, Diagnostic.textAt, Position.text,
    String.toList_append, List.append_assoc]
  rfl

theorem reportLine_eq (d : Diagnostic) :
    d.reportLine = "[ERROR] " ++ d.position.source ++ ":[" ++ Integer.naturalText d.position.line ++
      "," ++ Integer.naturalText d.position.column ++ "] " ++ d.message := by
  rw [← String.toList_inj, toList_reportLine]
  simp only [String.toList_append, List.append_assoc]
  rfl

/-- The line of a diagnostic is read back. -/
theorem ofLine?_reportLine (d : Diagnostic) :
    ofLine? d.position.source d.reportLine.toList = some d.entry := by
  rw [ofLine?, toList_reportLine, List.dropPrefix?_append_of_beq _ (beq_self_eq_true _)]
  simp only [Option.bind_eq_bind, Option.bind_some,
    number?_naturalText [','] rfl (List.cons_ne_nil _ _),
    number?_naturalText [']', ' '] rfl (List.cons_ne_nil _ _)]
  rw [String.ofList_toList]
  rfl

theorem mapM_ofLine?_reportLine {source : String} {ds : List Diagnostic}
    (h : ∀ d ∈ ds, d.position.source = source) :
    (ds.map fun d => d.reportLine.toList).mapM (ofLine? source) =
      some (ds.map Diagnostic.entry) := by
  induction ds with
  | nil => rfl
  | cons d ds ih =>
    obtain ⟨hd, hds⟩ := List.forall_mem_cons.mp h
    rw [List.map_cons, List.mapM_cons, ih hds, ← hd, ofLine?_reportLine]
    rfl

end Report

/-! ## The source of diagnostics -/

theorem TokenStream.source_of_ofText {source text : String} {s : TokenStream}
    (h : ofText source text = .ok s) :
    s.finish.position.source = source ∧ ∀ t ∈ s.tokens, t.position.source = source := by
  have hlocated := ofText_located source text
  rw [h] at hlocated
  obtain ⟨hfinish, places, hplaces, hat, -⟩ := hlocated
  refine ⟨?_, ?_⟩
  · rw [hfinish]
    rfl
  · intro t ht
    rw [← hplaces] at ht
    obtain ⟨x, hx, rfl⟩ := List.mem_map.mp ht
    rw [(hat x hx).1]
    rfl

/-- All diagnostics of a text name its source. -/
theorem source_of_readScript {source text : String} {ds : List Diagnostic}
    (h : readScript source text = .error ds) {d : Diagnostic} (hd : d ∈ ds) :
    d.position.source = source := by
  unfold readScript at h
  split at h
  · rename_i s hs
    obtain ⟨hfinish, htokens⟩ := TokenStream.source_of_ofText hs
    obtain ⟨fault, next, rfl, -, hnext⟩ := TokenStream.exists_describes h hd
    cases next with
    | none => exact hfinish
    | some t => exact htokens t (hnext t rfl)
  · rename_i ds' hs
    cases h
    have hlocated := TokenStream.ofText_located source text
    rw [hs] at hlocated
    obtain ⟨spots, hspots, hat, -⟩ := hlocated
    rw [← hspots] at hd
    obtain ⟨x, hx, rfl⟩ := List.mem_map.mp hd
    rw [(hat x hx).2]
    rfl

theorem readScript_error_ne_nil {source text : String} {ds : List Diagnostic}
    (h : readScript source text = .error ds) : ds ≠ [] := by
  unfold readScript at h
  split at h
  · rw [TokenStream.script_eq_gather, gather_eq_error] at h
    exact h.1
  · rename_i hs
    cases h
    exact (TokenStream.ofText_eq_error.mp hs).1

/-! ## Reports -/

namespace Outcome

variable {source text : String} {rendering : Rendering} {ds : List Diagnostic}

/-- A text fails with the diagnostics that it is read with. -/
theorem ofText_eq_failed :
    ofText source text rendering = .failed ds ↔ readScript source text = .error ds := by
  unfold ofText
  cases readScript source text with
  | ok forest => simp
  | error ds' => simp

/-- The lines of a report are the lines that it has been put together from. -/
theorem splitOn_report (h : ∀ l ∈ reportLines ds, '\n' ∉ l.toList) :
    (failed ds).report.toList.splitOn '\n' = (reportLines ds).map String.toList := by
  have hlines : ∀ l ∈ (reportLines ds).map String.toList, '\n' ∉ l := by
    intro l hl
    obtain ⟨line, hline, rfl⟩ := List.mem_map.mp hl
    exact h line hline
  have hne : (reportLines ds).map String.toList ≠ [] := by simp [reportLines]
  rw [report, String.toList_intercalate]
  exact List.splitOn_intercalate '\n' hlines hne

theorem newline_not_mem_reportLine {d : Diagnostic} (hsource : '\n' ∉ d.position.source.toList)
    (hmessage : OnOneLine d.message) : '\n' ∉ d.reportLine.toList := by
  rw [Report.toList_reportLine, String.toList_append, String.toList_append]
  simp only [List.mem_append, not_or]
  exact ⟨⟨⟨by decide, hsource⟩, by decide⟩, (onOneLine_naturalText _).newline_not_mem, by decide,
    (onOneLine_naturalText _).newline_not_mem, by decide, hmessage.newline_not_mem⟩

theorem newline_not_mem_count (n : Nat) :
    '\n' ∉ ("There were " ++ Integer.naturalText n ++ " errors").toList :=
  (((by decide : OnOneLine "There were ").append (onOneLine_naturalText n)).append
    (by decide : OnOneLine " errors")).newline_not_mem

/-- A text that is not read has diagnostics, and none of their messages has a line end.  If the name
of the source has none either, the lines of the report are one for each diagnostic, in order, and
one that counts them; and the report can be read back. -/
theorem report_of_failed (h : ofText source text rendering = .failed ds) :
    readScript source text = .error ds ∧ 1 ≤ ds.length ∧
    (∀ d ∈ ds, '\n' ∉ d.message.toList ∧ '\r' ∉ d.message.toList) ∧
    ('\n' ∉ source.toList →
      ((failed ds).report.toList.splitOn '\n').map String.ofList =
        (ds.map fun d => "[ERROR] " ++ source ++ ":[" ++ Integer.naturalText d.position.line ++
          "," ++ Integer.naturalText d.position.column ++ "] " ++ d.message) ++
        ["There were " ++ Integer.naturalText ds.length ++ " errors"] ∧
      Report.entries? source (failed ds).report = some (ds.map Diagnostic.entry)) := by
  have hread := ofText_eq_failed.mp h
  have hmessages : ∀ d ∈ ds, OnOneLine d.message := fun d hd => onOneLine_of_readScript hread hd
  have hsources : ∀ d ∈ ds, d.position.source = source := fun d hd => source_of_readScript hread hd
  refine ⟨hread, ?_, ?_, ?_⟩
  · exact List.length_pos_iff.mpr (readScript_error_ne_nil hread)
  · intro d hd
    exact ⟨(hmessages d hd).newline_not_mem, (hmessages d hd).return_not_mem⟩
  · intro hsource
    have hlines : ∀ l ∈ reportLines ds, '\n' ∉ l.toList := by
      refine List.forall_mem_append.mpr ⟨?_, ?_⟩
      · intro l hl
        obtain ⟨d, hd, rfl⟩ := List.mem_map.mp hl
        refine newline_not_mem_reportLine ?_ (hmessages d hd)
        rwa [hsources d hd]
      · exact List.forall_mem_singleton.mpr (newline_not_mem_count ds.length)
    refine ⟨?_, ?_⟩
    · have hid : String.ofList ∘ String.toList = id := funext fun _ => String.ofList_toList
      have hshown : ds.map Diagnostic.reportLine = ds.map fun d => "[ERROR] " ++ source ++ ":[" ++
          Integer.naturalText d.position.line ++ "," ++ Integer.naturalText d.position.column ++
          "] " ++ d.message := by
        refine List.map_congr_left ?_
        intro d hd
        rw [Report.reportLine_eq, hsources d hd]
      rw [splitOn_report hlines, List.map_map, hid, List.map_id, reportLines, hshown]
    · rw [Report.entries?, splitOn_report hlines, reportLines, List.map_append, List.map_singleton,
        List.dropLast_concat, List.map_map]
      exact Report.mapM_ofLine?_reportLine hsources

/-- Two faults, in a source whose name looks like a position. -/
theorem report_of_failed_twoFaults :
    ofText "a:[1,2] b" "USE );\r\nSELECT \"é\\n\" FROM;" .text = .failed
        [⟨⟨"a:[1,2] b", 1, 5⟩, .syntactic (.expected (.kind .identifier)) (.lexeme ")")⟩,
          ⟨⟨"a:[1,2] b", 2, 18⟩, .syntactic (.expected (.kind .identifier)) (.lexeme ";")⟩] ∧
      Report.entries? "a:[1,2] b" (failed
        [⟨⟨"a:[1,2] b", 1, 5⟩, .syntactic (.expected (.kind .identifier)) (.lexeme ")")⟩,
          ⟨⟨"a:[1,2] b", 2, 18⟩,
            .syntactic (.expected (.kind .identifier)) (.lexeme ";")⟩]).report =
        some [⟨1, 5, "Expected identifier, but found `)`"⟩,
          ⟨2, 18, "Expected identifier, but found `;`"⟩] := by
  have h : ofText "a:[1,2] b" "USE );\r\nSELECT \"é\\n\" FROM;" .text = .failed
      [⟨⟨"a:[1,2] b", 1, 5⟩, .syntactic (.expected (.kind .identifier)) (.lexeme ")")⟩,
        ⟨⟨"a:[1,2] b", 2, 18⟩, .syntactic (.expected (.kind .identifier)) (.lexeme ";")⟩] := by
    decide +kernel
  obtain ⟨-, -, -, hreport⟩ := report_of_failed h
  exact ⟨h, (hreport (by decide)).2⟩

end Outcome

end SqlForest
