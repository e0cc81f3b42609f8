import SqlForest.Proofs.Printing.Accepted
import SqlForest.Proofs.Printing.Dump
import SqlForest.Report

/-!
# Which texts have the same dump

A string in a text may hold a closing parenthesis, and its dump does not show which one ends it.  So
there are texts with different statements and the same dump (`exists_same_dump`).  Texts without
such strings have the same dump only if they have the same statements (`forest_eq_of_dump`), because
all names of a text are made of the characters of words.
-/

namespace SqlForest

theorem IsName.isRun {name : String} (h : IsName name) : IsRun name := by
  refine ⟨?_, List.all_eq_true.mpr fun c hc => h.isWordPart_of_mem hc⟩
  intro hnil
  have hstart := h.start
  rw [hnil] at hstart
  cases hstart

/-- What is said of a printable expression is said of its names and its strings. -/
theorem Expr.Printable.each {e : Expr} (h : e.Printable) :
    e.Each IsName fun body => isStringBody body.toList := by
  induction e using Expr.induction with
  | identifier name => exact h
  | number value => trivial
  | string body => exact h
  | call name arguments ih =>
    refine ⟨h.1, eachOfAll_iff.mpr ?_⟩
    intro e he
    exact ih e he (allPrintable_iff.mp h.2 e he)
  | binary op left right hleft hright => exact ⟨hleft h.1, hright h.2⟩
  | unary op operand ih => exact ih h
  | nullCheck operand negated ih => exact ih h

theorem Statement.Printable.legible {s : Statement} (h : s.Printable)
    (hstrings : s.Each (fun _ => True) IsEnclosed) : s.Legible where
  names n hn := (h.names n hn).isRun
  expressions e he := (h.expressions e he).each.combine (hstrings.expressions e he)
    (fun _ hname _ => hname.isRun) (fun _ _ henclosed => henclosed)

/-- Two texts whose strings hold no closing parenthesis have the same dump only if they have the
same statements. -/
theorem forest_eq_of_dump {source text source' text' : String} {forest forest' : List Statement}
    (h : readScript source text = .ok forest) (h' : readScript source' text' = .ok forest')
    (hstrings : ∀ s ∈ forest ++ forest', s.Each (fun _ => True) IsEnclosed)
    (hdump : Rendering.text.write forest = Rendering.text.write forest') : forest = forest' := by
  obtain ⟨hleft, hright⟩ := List.forall_mem_append.mp hstrings
  refine Statement.dumpAll_inj ?_ ?_ hdump
  · intro s hs
    exact (printable_of_readScript h s hs).legible (hleft s hs)
  · intro s hs
    exact (printable_of_readScript h' s hs).legible (hright s hs)

/-- A query for one item. -/
def selectOne (item : Expr) : Statement :=
  .select ⟨[item], none, none, none⟩

theorem forest_eq_of_dump_string :
    readScript "p" "SELECT \"x, y\";" = .ok [selectOne (.string "x, y")] ∧
      readScript "q" "select\n\"x, y\" ;" = .ok [selectOne (.string "x, y")] ∧
      [selectOne (.string "x, y")] = [selectOne (.string "x, y")] := by
  have hp : readScript "p" "SELECT \"x, y\";" = .ok [selectOne (.string "x, y")] := by
    decide +kernel
  have hq : readScript "q" "select\n\"x, y\" ;" = .ok [selectOne (.string "x, y")] := by
    decide +kernel
  have henclosed : (selectOne (.string "x, y")).Each (fun _ => True) IsEnclosed := by
    refine ⟨nofun, ?_⟩
    intro e he
    rw [List.mem_singleton.mp he]
    exact (by decide : ')' ∉ "x, y".toList)
  refine ⟨hp, hq, forest_eq_of_dump hp hq ?_ rfl⟩
  intro s hs
  simp only [List.cons_append, List.nil_append, List.mem_cons, List.not_mem_nil, or_false,
    or_self] at hs
  rw [hs]
  exact henclosed

/-- Texts with different statements may have the same dump. -/
theorem exists_same_dump :
    ¬ ∀ (source text source' text' : String) (forest forest' : List Statement),
      readScript source text = .ok forest → readScript source' text' = .ok forest' →
      Rendering.text.write forest = Rendering.text.write forest' → forest = forest' := by
  intro h
  have hone : readScript "" "SELECT \"a), Id(b\";" = .ok [selectOne (.string "a), Id(b")] := by
    decide +kernel
  have htwo : readScript "" "SELECT \"a\", b;" =
      .ok [.select ⟨[.string "a", .identifier "b"], none, none, none⟩] := by
    decide +kernel
  have hsame := h "" _ "" _ _ _ hone htwo (by decide +kernel)
  exact absurd hsame (by decide)

end SqlForest
