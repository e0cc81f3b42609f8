import SqlForest.Text.Integer

/-!
# Graphs of trees

Labelled trees, the graph that a list of them is drawn as, and the DOT text of such a graph.  The
nodes are numbered from one in the order of the trees, each node before those below it.
-/

namespace SqlForest

/-- The outline of a node. -/
inductive Shape
  | box
  | ellipse
  | circle
deriving DecidableEq, Repr

/-- The name of a shape in DOT. -/
def Shape.name : Shape → String
  | box => "box"
  | ellipse => "ellipse"
  | circle => "circle"

/-- A tree with labels at its nodes and at its branches. -/
inductive Tree
  /-- A node with any number of labelled branches.  The edge to a branch follows the branch. -/
  | node (shape : Shape) (label : String) (branches : List (String × Tree))
  /-- A node with a first and a second branch.  The edges to both follow the second. -/
  | fork (label : String) (first second : Tree)

/-- A numbered node. -/
structure Node where
  number : Nat
  shape : Shape
  label : String
deriving DecidableEq, Repr

/-- An edge between the nodes of two numbers. -/
structure Edge where
  source : Nat
  target : Nat
  label : String
deriving DecidableEq, Repr

/-- A graph whose `roots` are the nodes without an edge towards them. -/
structure Graph where
  nodes : List Node
  edges : List Edge
  roots : List Nat
deriving DecidableEq, Repr

namespace Tree

/-- A tree without branches. -/
def leaf (shape : Shape) (label : String) : Tree :=
  node shape label []

/-- A list of trees, each at a branch that is labelled with its index. -/
def list (items : List Tree) : Tree :=
  node .box "[]" (items.mapIdx fun index item => (Integer.naturalText index, item))

/-! ## Numbering -/

mutual

/-- The number of nodes of a tree. -/
def size : Tree → Nat
  | node _ _ branches => 1 + sizes branches
  | fork _ first second => 1 + size first + size second

/-- The number of nodes of several branches. -/
def sizes : List (String × Tree) → Nat
  | [] => 0
  | (_, t) :: branches => size t + sizes branches

end

mutual

/-- The nodes of a tree whose root has the given number. -/
def nodes (number : Nat) : Tree → List Node
  | node shape label branches => ⟨number, shape, label⟩ :: branchNodes (number + 1) branches
  | fork label first second =>
    ⟨number, .circle, label⟩ ::
      (nodes (number + 1) first ++ nodes (number + 1 + size first) second)

/-- The nodes of branches, the first of which starts at the given number. -/
def branchNodes (number : Nat) : List (String × Tree) → List Node
  | [] => []
  | (_, t) :: branches => nodes number t ++ branchNodes (number + size t) branches

end

mutual

/-- The edges of a tree whose root has the given number. -/
def edges (number : Nat) : Tree → List Edge
  | node _ _ branches => branchEdges number (number + 1) branches
  | fork _ first second =>
    let second' := number + 1 + size first
    edges (number + 1) first ++ edges second' second ++
      [⟨number, number + 1, "first"⟩, ⟨number, second', "second"⟩]

/-- The edges of branches of the node `source`, the first of which starts at the given number. -/
def branchEdges (source number : Nat) : List (String × Tree) → List Edge
  | [] => []
  | (label, t) :: branches =>
    edges number t ++ ⟨source, number, label⟩ :: branchEdges source (number + size t) branches

end

/-- The numbers of the roots of trees, the first of which starts at the given number. -/
def roots (number : Nat) : List Tree → List Nat
  | [] => []
  | t :: trees => number :: roots (number + size t) trees

/-- The nodes of trees, the first of which starts at the given number. -/
def allNodes (number : Nat) : List Tree → List Node
  | [] => []
  | t :: trees => nodes number t ++ allNodes (number + size t) trees

/-- The edges of trees, the first of which starts at the given number. -/
def allEdges (number : Nat) : List Tree → List Edge
  | [] => []
  | t :: trees => edges number t ++ allEdges (number + size t) trees

/-- The graph of trees, numbered from one. -/
def graph (trees : List Tree) : Graph where
  nodes := allNodes 1 trees
  edges := allEdges 1 trees
  roots := roots 1 trees

end Tree

/-! ## DOT -/

namespace Graph

/-- A character as it is written in a label. -/
def escapeChar (c : Char) : List Char :=
  match c with
  | '\\' => ['\\', '\\']
  | '"' => ['\\', '"']
  | '\n' => ['\\', 'n']
  | '\r' => ['\\', 'r']
  | '\x0c' => ['\\', 'f']
  | '\x08' => ['\\', 'b']
  | c => [c]

/-- A label between quotes. -/
def quote (label : String) : String :=
  "\"" ++ String.ofList (label.toList.flatMap escapeChar) ++ "\""

example : quote "a\"b\t\n" = "\"a\\\"b\t\\n\"" := by decide

/-- The name of the node with the given number. -/
def nodeName (number : Nat) : String :=
  "n" ++ Integer.naturalText number

/-- The declaration of a node. -/
def nodeLine (node : Node) : String :=
  nodeName node.number ++ " [shape=" ++ node.shape.name ++ ",label=" ++ quote node.label ++ "];"

/-- The declaration of an edge. -/
def edgeLine (edge : Edge) : String :=
  nodeName edge.source ++ " -> " ++ nodeName edge.target ++ " [label=" ++ quote edge.label ++ "];"

/-- An indented line. -/
def line (text : String) : String :=
  "  " ++ text ++ "\n"

/-- The comment at the head of a DOT text. -/
def header : String :=
  "/* DOT vizgraph file with an AST-forest of the parsed SQL statements. */\n" ++
  "/* To generate a .PNG image of the AST, run: */\n" ++
  "/* dot -Tpng <thisFile> -o <outputFile.png> */\n\n"

/-- The part that keeps the roots in one column, in their order. -/
def ranks (roots : List Nat) : String :=
  "  \x7b\n    rank = same;\n    " ++ " -> ".intercalate ("root" :: roots.map nodeName) ++
  " [style=invis];\n    rankdir=TB;\n  \x7d\n"

/-- The DOT text of a graph. -/
def dot (g : Graph) : String :=
  header ++ "digraph \x7b\n  rankdir=LR;\n" ++ line "root [style=invis];" ++
  String.join (g.nodes.map fun node => line (nodeLine node)) ++
  String.join (g.edges.map fun edge => line (edgeLine edge)) ++
  ranks g.roots ++ "\x7d\n"

end Graph

end SqlForest
