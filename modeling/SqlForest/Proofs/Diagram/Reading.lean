import SqlForest.Proofs.Diagram.Numbering
import SqlForest.Proofs.Text.Integer
import SqlForest.Proofs.Text.ToldApart

/-!
# Reading DOT

`Dot.nodes` and `Dot.edges` find the declarations of a DOT text.  They go by the text alone: a line
is a declaration if it is written like one, and a label ends at the first quote that no backslash
escapes.  From the text of a graph they read the nodes and the edges of that graph and nothing else
(`Dot.nodes_dot`, `Dot.edges_dot`), whatever its labels are.  For a label is read up to the quote
that was written behind it (`Dot.quoted?_quote`), and it does not end a line
(`Dot.lineEnd_not_mem_quote`).
-/

namespace SqlForest

namespace Dot

/-! ## Pieces of lines -/

/-- What stands behind a fixed text, if a text begins with that. -/
def behind? : List Char → List Char → Option (List Char)
  | [], text => some text
  | c :: fixed, d :: text => if c = d then behind? fixed text else none
  | _ :: _, [] => none

/-- Reads a number and the blank behind it. -/
def number? (text : List Char) : Option (Nat × List Char) :=
  (Integer.ofDigits? (text.takeWhile Char.isDigit)).bind fun n =>
    (behind? [' '] (text.dropWhile Char.isDigit)).map fun rest => (n, rest)

/-- Reads the name of a shape. -/
def shape? (text : List Char) : Option (Shape × List Char) :=
  [Shape.box, .ellipse, .circle].findSome? fun shape =>
    (behind? shape.name.toList text).map fun rest => (shape, rest)

/-- The character that a backslash and the given character stand for. -/
def unescaped? (mark : Char) : Option Char :=
  [('\\', '\\'), ('"', '"'), ('n', '\n'), ('r', '\r'), ('f', '\x0c'), ('b', '\x08')].lookup mark

/-- Reads what is left of a label and the quote behind it. -/
def label? : List Char → Option (List Char × List Char)
  | [] => none
  | '"' :: rest => some ([], rest)
  | '\\' :: mark :: rest =>
    (unescaped? mark).bind fun c => (label? rest).map fun (label, rest) => (c :: label, rest)
  | c :: rest => (label? rest).map fun (label, rest) => (c :: label, rest)

/-- Reads a label between quotes. -/
def quoted? (text : List Char) : Option (String × List Char) :=
  (behind? ['"'] text).bind fun text =>
    (label? text).map fun (label, rest) => (String.ofList label, rest)

/-! ## Lines -/

/-- The node that a line declares, if it declares one. -/
def node? (line : List Char) : Option Node := do
  let line ← behind? "  n".toList line
  let (number, line) ← number? line
  let line ← behind? "[shape=".toList line
  let (shape, line) ← shape? line
  let line ← behind? ",label=".toList line
  let (label, line) ← quoted? line
  if line = "];".toList then some ⟨number, shape, label⟩ else none

/-- The edge that a line declares, if it declares one. -/
def edge? (line : List Char) : Option Edge := do
  let line ← behind? "  n".toList line
  let (source, line) ← number? line
  let line ← behind? "-> n".toList line
  let (target, line) ← number? line
  let line ← behind? "[label=".toList line
  let (label, line) ← quoted? line
  if line = "];".toList then some ⟨source, target, label⟩ else none

/-- The lines of a text. -/
def lines (text : String) : List (List Char) :=
  text.toList.splitOn '\n'

/-- The nodes that a DOT text declares. -/
def nodes (text : String) : List Node :=
  (lines text).filterMap node?

/-- The edges that a DOT text declares. -/
def edges (text : String) : List Edge :=
  (lines text).filterMap edge?

/-! ## Pieces are read -/

theorem behind?_append (fixed rest : List Char) : behind? fixed (fixed ++ rest) = some rest := by
  induction fixed with
  | nil => rfl
  | cons c fixed ih => rw [List.cons_append, behind?, if_pos rfl, ih]

theorem number?_naturalText (n : Nat) (rest : List Char) :
    number? ((Integer.naturalText n).toList ++ ' ' :: rest) = some (n, rest) := by
  have hdigits := Integer.naturalText_isDigit n
  have hblank : (' ' :: rest).head?.any Char.isDigit = false := rfl
  rw [number?, takeWhile_append_of_ends hdigits hblank, dropWhile_append_of_ends hdigits hblank,
    Integer.ofDigits?_naturalText]
  rfl

theorem shape?_name (shape : Shape) (rest : List Char) :
    shape? (shape.name.toList ++ rest) = some (shape, rest) := by
  cases shape <;> rfl

/-- A character is written behind a backslash or as it is, and what is written as it is neither ends
a label nor a line. -/
theorem escapeChar_cases (c : Char) :
    (∃ mark, Graph.escapeChar c = ['\\', mark] ∧ unescaped? mark = some c) ∨
      (Graph.escapeChar c = [c] ∧ c ∉ ['\\', '"', '\n', '\r']) := by
  unfold Graph.escapeChar
  split
  case h_7 hbackslash hquote hnewline hreturn _ _ =>
    refine .inr ⟨rfl, ?_⟩
    simp only [List.mem_cons, List.not_mem_nil, or_false, not_or]
    exact ⟨hbackslash, hquote, hnewline, hreturn⟩
  all_goals exact .inl ⟨_, rfl, rfl⟩

theorem label?_escapeChar (c : Char) (text : List Char) :
    label? (Graph.escapeChar c ++ text) =
      (label? text).map fun (label, rest) => (c :: label, rest) := by
  rcases escapeChar_cases c with ⟨mark, hescape, hmark⟩ | ⟨hplain, hc⟩
  · rw [hescape, List.cons_append, List.singleton_append, label?, hmark, Option.bind_some]
  · -- What is no quote and no backslash is read by the last equation.
    simp only [List.mem_cons, not_or] at hc
    rw [hplain, List.singleton_append, label?]
    · exact hc.2.1
    · intro mark rest hbackslash _
      exact hc.1 hbackslash

theorem label?_append (label rest : List Char) :
    label? (label.flatMap Graph.escapeChar ++ '"' :: rest) = some (label, rest) := by
  induction label with
  | nil => rfl
  | cons c label ih =>
    rw [List.flatMap_cons, List.append_assoc, label?_escapeChar, ih]
    rfl

theorem toList_quote (label : String) :
    (Graph.quote label).toList = '"' :: (label.toList.flatMap Graph.escapeChar ++ ['"']) := by
  simp only [Graph.quote, String.toList_append, String.toList_ofList]
  rfl

/-- A label ends at the quote that was written behind it. -/
theorem quoted?_quote (label : String) (rest : List Char) :
    quoted? ((Graph.quote label).toList ++ rest) = some (label, rest) := by
  have hread : ((Graph.quote label).toList ++ rest) =
      ['"'] ++ (label.toList.flatMap Graph.escapeChar ++ '"' :: rest) := by
    rw [toList_quote, List.cons_append, List.append_assoc]
    rfl
  rw [quoted?, hread, behind?_append, Option.bind_some, label?_append, Option.map_some]
  show some (String.ofList label.toList, rest) = _
  rw [String.ofList_toList]

/-! ## Declarations are read -/

/-- The line that declares a node. -/
def nodeLine (node : Node) : String :=
  "  " ++ Graph.nodeLine node

/-- The line that declares an edge. -/
def edgeLine (edge : Edge) : String :=
  "  " ++ Graph.edgeLine edge

theorem toList_nodeLine (node : Node) :
    (nodeLine node).toList =
      "  n".toList ++ ((Integer.naturalText node.number).toList ++ ' ' :: ("[shape=".toList ++
        (node.shape.name.toList ++ (",label=".toList ++
          ((Graph.quote node.label).toList ++ "];".toList))))) := by
  simp only [nodeLine, Graph.nodeLine, Graph.nodeName, String.toList_append, List.append_assoc]
  rfl

theorem toList_edgeLine (edge : Edge) :
    (edgeLine edge).toList =
      "  n".toList ++ ((Integer.naturalText edge.source).toList ++ ' ' :: ("-> n".toList ++
        ((Integer.naturalText edge.target).toList ++ ' ' :: ("[label=".toList ++
          ((Graph.quote edge.label).toList ++ "];".toList))))) := by
  simp only [edgeLine, Graph.edgeLine, Graph.nodeName, String.toList_append, List.append_assoc]
  rfl

theorem node?_nodeLine (node : Node) : node? (nodeLine node).toList = some node := by
  rw [node?, toList_nodeLine]
  simp only [Option.bind_eq_bind, Option.bind_some, behind?_append,
    number?_naturalText, shape?_name, quoted?_quote]
  rfl

theorem edge?_edgeLine (edge : Edge) : edge? (edgeLine edge).toList = some edge := by
  rw [edge?, toList_edgeLine]
  simp only [Option.bind_eq_bind, Option.bind_some, behind?_append,
    number?_naturalText, quoted?_quote]
  rfl

/-- A declaration of a node is none of an edge. -/
theorem edge?_nodeLine (node : Node) : edge? (nodeLine node).toList = none := by
  rw [edge?, toList_nodeLine]
  simp only [Option.bind_eq_bind, Option.bind_some, behind?_append,
    number?_naturalText]
  rfl

/-- A declaration of an edge is none of a node. -/
theorem node?_edgeLine (edge : Edge) : node? (edgeLine edge).toList = none := by
  rw [node?, toList_edgeLine]
  simp only [Option.bind_eq_bind, Option.bind_some, behind?_append,
    number?_naturalText]
  rfl

/-! ## Labels end no line -/

theorem lineEnd_not_mem_escapeChar {d : Char} (hd : d ∈ ['\n', '\r']) (c : Char) :
    d ∉ Graph.escapeChar c := by
  rcases escapeChar_cases c with ⟨mark, hescape, hmark⟩ | ⟨hplain, hc⟩
  · have hnone : unescaped? d = none ∧ d ≠ '\\' := by
      simp only [List.mem_cons, List.not_mem_nil, or_false] at hd
      rcases hd with rfl | rfl
      · exact ⟨rfl, by decide⟩
      · exact ⟨rfl, by decide⟩
    rw [hescape]
    intro h
    rcases List.mem_cons.mp h with h | h
    · exact hnone.2 h
    · rw [← List.mem_singleton.mp h, hnone.1] at hmark
      cases hmark
  · rw [hplain]
    intro h
    rw [← List.mem_singleton.mp h] at hc
    exact hc (List.mem_cons_of_mem _ (List.mem_cons_of_mem _ hd))

/-- There is no line end in a label between quotes. -/
theorem lineEnd_not_mem_quote (label : String) :
    '\n' ∉ (Graph.quote label).toList ∧ '\r' ∉ (Graph.quote label).toList := by
  have hescaped : ∀ d ∈ ['\n', '\r'], d ∉ label.toList.flatMap Graph.escapeChar := by
    intro d hd hmem
    obtain ⟨c, -, hc⟩ := List.mem_flatMap.mp hmem
    exact lineEnd_not_mem_escapeChar hd c hc
  rw [toList_quote]
  simp [hescaped]

theorem newline_not_mem_naturalText (n : Nat) : '\n' ∉ (Integer.naturalText n).toList := by
  intro h
  exact absurd (List.all_eq_true.mp (Integer.naturalText_isDigit n) _ h) (by decide)

theorem newline_not_mem_nodeLine (node : Node) : '\n' ∉ (nodeLine node).toList := by
  have hshape : '\n' ∉ node.shape.name.toList := by
    cases node.shape <;> decide
  rw [toList_nodeLine]
  simp only [List.mem_append, List.mem_cons, not_or]
  exact ⟨by decide, newline_not_mem_naturalText _, by decide, by decide, hshape, by decide,
    (lineEnd_not_mem_quote _).1, by decide⟩

theorem newline_not_mem_edgeLine (edge : Edge) : '\n' ∉ (edgeLine edge).toList := by
  rw [toList_edgeLine]
  simp only [List.mem_append, List.mem_cons, not_or]
  exact ⟨by decide, newline_not_mem_naturalText _, by decide, by decide,
    newline_not_mem_naturalText _, by decide, by decide, (lineEnd_not_mem_quote _).1, by decide⟩

/-! ## Whole texts are read -/

/-- The lines in front of all declarations of numbered nodes. -/
def opening : List String :=
  ["/* DOT vizgraph file with an AST-forest of the parsed SQL statements. */",
    "/* To generate a .PNG image of the AST, run: */",
    "/* dot -Tpng <thisFile> -o <outputFile.png> */", "", "digraph \x7b", "  rankdir=LR;",
    "  root [style=invis];"]

/-- The line that chains the roots behind one another. -/
def chain (roots : List Nat) : String :=
  "    " ++ " -> ".intercalate ("root" :: roots.map Graph.nodeName) ++ " [style=invis];"

/-- The lines behind all declarations. -/
def closing (roots : List Nat) : List String :=
  ["  \x7b", "    rank = same;", chain roots, "    rankdir=TB;", "  \x7d", "\x7d"]

/-- The lines of the text of a graph. -/
def graphLines (g : Graph) : List String :=
  opening ++ (g.nodes.map nodeLine ++ (g.edges.map edgeLine ++ closing g.roots))

/-- A line with its end. -/
def ended (line : String) : String :=
  line ++ "\n"

theorem ranks_eq (roots : List Nat) :
    Graph.ranks roots ++ "\x7d\n" = String.join ((closing roots).map ended) := by
  have hfront : "  \x7b\n    rank = same;\n    " =
      ended "  \x7b" ++ (ended "    rank = same;" ++ "    ") := by
    decide
  have hback : " [style=invis];\n    rankdir=TB;\n  \x7d\n" ++ "\x7d\n" =
      " [style=invis];" ++ ("\n" ++ (ended "    rankdir=TB;" ++ (ended "  \x7d" ++
        ended "\x7d"))) := by
    decide
  have hchain : ended (chain roots) = "    " ++
      " -> ".intercalate ("root" :: roots.map Graph.nodeName) ++ " [style=invis];" ++ "\n" := rfl
  unfold Graph.ranks
  rw [String.append_assoc, hback, hfront]
  simp only [closing, List.map_cons, List.map_nil, String.join_cons, String.join_nil, hchain,
    String.append_assoc, String.append_empty]

theorem dot_eq (g : Graph) : g.dot = String.join ((graphLines g).map ended) := by
  have hopening : Graph.header ++ "digraph \x7b\n  rankdir=LR;\n" ++
      Graph.line "root [style=invis];" = String.join (opening.map ended) := by
    decide +kernel
  rw [Graph.dot, String.append_assoc, ranks_eq, hopening, graphLines]
  simp only [List.map_append, List.map_map, String.join_append, String.append_assoc]
  rfl

theorem lines_ended {ls : List String} (h : ∀ l ∈ ls, '\n' ∉ l.toList) :
    lines (String.join (ls.map ended)) = ls.map String.toList ++ [[]] := by
  induction ls with
  | nil => rfl
  | cons l ls ih =>
    obtain ⟨hl, hls⟩ := List.forall_mem_cons.mp h
    have hline : (ended l ++ String.join (ls.map ended)).toList =
        l.toList ++ '\n' :: (String.join (ls.map ended)).toList := by
      rw [ended, String.toList_append, String.toList_append, List.append_assoc]
      rfl
    rw [List.map_cons, String.join_cons, lines, hline,
      List.splitOn_append_cons_self_of_not_mem hl, ← lines, ih hls]
    rfl

theorem toList_chain (roots : List Nat) :
    (chain roots).toList = "    ".toList ++
      ((" -> ".intercalate ("root" :: roots.map Graph.nodeName)).toList ++
        " [style=invis];".toList) := by
  rw [chain, String.toList_append, String.toList_append, List.append_assoc]

theorem newline_not_mem_chain (roots : List Nat) : '\n' ∉ (chain roots).toList := by
  have hnames : ∀ name ∈ (roots.map Graph.nodeName).map String.toList,
      '\n' ∉ " -> ".toList ++ name := by
    intro name hname
    simp only [List.map_map, List.mem_map, Function.comp_apply] at hname
    obtain ⟨n, -, rfl⟩ := hname
    rw [Graph.nodeName, String.toList_append, List.mem_append, List.mem_append, not_or, not_or]
    exact ⟨by decide, by decide, newline_not_mem_naturalText n⟩
  rw [toList_chain, String.toList_intercalate, List.map_cons, intercalate_cons, List.mem_append,
    List.mem_append, List.mem_append, List.mem_flatMap]
  rintro (h | (h | ⟨name, hname, h⟩) | h)
  · exact absurd h (by decide)
  · exact absurd h (by decide)
  · exact hnames name hname h
  · exact absurd h (by decide)

/-- The line does not begin like a declaration, and it is one line. -/
structure IsFixed (line : String) : Prop where
  newline_not_mem : '\n' ∉ line.toList
  begins : behind? "  n".toList line.toList = none

theorem isFixed_opening : ∀ l ∈ opening, IsFixed l := by
  have hall : ∀ l ∈ opening, '\n' ∉ l.toList ∧ behind? "  n".toList l.toList = none := by
    decide +kernel
  intro l hl
  exact ⟨(hall l hl).1, (hall l hl).2⟩

theorem isFixed_closing (roots : List Nat) : ∀ l ∈ closing roots, IsFixed l := by
  have hchain : behind? "  n".toList (chain roots).toList = none := by
    rw [toList_chain]
    rfl
  intro l hl
  simp only [closing, List.mem_cons, List.not_mem_nil, or_false] at hl
  rcases hl with rfl | rfl | rfl | rfl | rfl | rfl
  · exact ⟨by decide, rfl⟩
  · exact ⟨by decide, rfl⟩
  · exact ⟨newline_not_mem_chain roots, hchain⟩
  · exact ⟨by decide, rfl⟩
  · exact ⟨by decide, rfl⟩
  · exact ⟨by decide, rfl⟩

theorem newline_not_mem_graphLines (g : Graph) : ∀ l ∈ graphLines g, '\n' ∉ l.toList := by
  intro l hl
  simp only [graphLines, List.mem_append, List.mem_map] at hl
  rcases hl with hl | ⟨node, -, rfl⟩ | ⟨edge, -, rfl⟩ | hl
  · exact (isFixed_opening l hl).newline_not_mem
  · exact newline_not_mem_nodeLine node
  · exact newline_not_mem_edgeLine edge
  · exact (isFixed_closing g.roots l hl).newline_not_mem

/-- The lines of the text of a graph are a line for each declaration between fixed ones. -/
theorem lines_dot (g : Graph) : lines g.dot = (graphLines g).map String.toList ++ [[]] := by
  rw [dot_eq, lines_ended (newline_not_mem_graphLines g)]

/-- A line declares something only if it begins like a declaration. -/
theorem undeclared {line : List Char} (h : behind? "  n".toList line = none) :
    node? line = none ∧ edge? line = none := by
  rw [node?, edge?, h]
  exact ⟨rfl, rfl⟩

theorem filterMap_lines_dot {α : Type} {declared? : List Char → Option α}
    (h : ∀ line, behind? "  n".toList line = none → declared? line = none) (g : Graph) :
    (lines g.dot).filterMap declared? =
      (g.nodes.filterMap fun node => declared? (nodeLine node).toList) ++
        g.edges.filterMap fun edge => declared? (edgeLine edge).toList := by
  have hfixed : ∀ {ls : List String}, (∀ l ∈ ls, IsFixed l) →
      (ls.map String.toList).filterMap declared? = [] := by
    intro ls hls
    rw [List.filterMap_eq_nil_iff]
    intro line hline
    obtain ⟨l, hl, rfl⟩ := List.mem_map.mp hline
    exact h _ (hls l hl).begins
  -- The text ends with a line end, behind which an empty line is left.
  have hempty : [([] : List Char)].filterMap declared? = [] := by
    rw [List.filterMap_cons_none (h [] rfl), List.filterMap_nil]
  rw [lines_dot, graphLines, List.map_append, List.map_append, List.map_append,
    List.filterMap_append, List.filterMap_append, List.filterMap_append, List.filterMap_append,
    hfixed isFixed_opening, hfixed (isFixed_closing g.roots), hempty, List.map_map, List.map_map,
    List.filterMap_map, List.filterMap_map, List.append_nil, List.append_nil]
  rfl

/-- The nodes that the text of a graph declares are those of the graph. -/
theorem nodes_dot (g : Graph) : nodes g.dot = g.nodes := by
  rw [nodes, filterMap_lines_dot (fun _ h => (undeclared h).1)]
  simp only [node?_nodeLine, node?_edgeLine]
  rw [List.filterMap_some, List.filterMap_eq_nil_iff.mpr fun _ _ => rfl, List.append_nil]

/-- The edges that the text of a graph declares are those of the graph. -/
theorem edges_dot (g : Graph) : edges g.dot = g.edges := by
  rw [edges, filterMap_lines_dot (fun _ h => (undeclared h).2)]
  simp only [edge?_nodeLine, edge?_edgeLine]
  rw [List.filterMap_some, List.filterMap_eq_nil_iff.mpr fun _ _ => rfl, List.nil_append]

/-- Forests with the same text are the same graph. -/
theorem eq_of_dot {g g' : Graph} (h : g.IsForest) (h' : g'.IsForest) (htext : g.dot = g'.dot) :
    g = g' := by
  have hnodes := nodes_dot g
  have hedges := edges_dot g
  rw [htext, nodes_dot] at hnodes
  rw [htext, edges_dot] at hedges
  exact h.eq_of_nodes_of_edges h' hnodes.symm hedges.symm

end Dot

end SqlForest
