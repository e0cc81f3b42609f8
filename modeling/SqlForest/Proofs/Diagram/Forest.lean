import SqlForest.Proofs.Diagram.Reading
import SqlForest.Proofs.Printing.Contents
import SqlForest.Statement.Diagram

/-!
# The diagram of a forest

The diagram of a forest has one node for each statement and for each expression, name, table and
list of it (`Statement.nodeCount`).  The roots of the diagram are the nodes of the statements, and
every other node hangs from just one (`Statement.dotText_isForest`).
-/

namespace SqlForest

/-! ## Counting nodes -/

namespace Expr

/-- Whether the expression is a call, which has a list of arguments. -/
def isCall : Expr → Bool
  | call _ _ => true
  | _ => false

/-- The number of expressions and of lists of arguments among some expressions. -/
def nodeCount (es : List Expr) : Nat :=
  es.length + es.countP isCall

theorem nodeCount_append (es es' : List Expr) :
    nodeCount (es ++ es') = nodeCount es + nodeCount es' := by
  rw [nodeCount, List.length_append, List.countP_append, nodeCount, nodeCount]
  omega

theorem partsOfAll_eq_flatMap (es : List Expr) : partsOfAll es = es.flatMap parts := by
  induction es with
  | nil => rfl
  | cons e es ih => rw [partsOfAll, ih, List.flatMap_cons]

theorem total_of_size {es : List Expr} (h : ∀ e ∈ es, e.tree.size = nodeCount e.parts) :
    Tree.total (es.map tree) = nodeCount (es.flatMap parts) := by
  induction es with
  | nil => rfl
  | cons e es ih =>
    obtain ⟨he, hes⟩ := List.forall_mem_cons.mp h
    rw [List.map_cons, Tree.total, he, ih hes, List.flatMap_cons, nodeCount_append]

/-- An expression is drawn with a node for each of its parts and for each list of arguments. -/
theorem size_tree (e : Expr) : e.tree.size = nodeCount e.parts := by
  induction e using Expr.induction with
  | identifier | number | string => rfl
  | call name arguments ih =>
    have hcall : nodeCount [call name arguments] = 2 := rfl
    rw [tree, trees_eq_map, Tree.size, Tree.sizes, Tree.sizes, Tree.size_list, total_of_size ih,
      parts, partsOfAll_eq_flatMap, ← List.singleton_append, nodeCount_append, hcall]
    omega
  | binary op left right hleft hright =>
    have hbinary : nodeCount [binary op left right] = 1 := rfl
    rw [tree, Tree.size, hleft, hright, parts, ← List.singleton_append, nodeCount_append,
      nodeCount_append, hbinary, Nat.add_assoc]
  | unary op operand ih =>
    have hunary : nodeCount [unary op operand] = 1 := rfl
    rw [tree, Tree.size, Tree.sizes, Tree.sizes, ih, parts, ← List.singleton_append,
      nodeCount_append, hunary, Nat.add_zero]
  | nullCheck operand negated ih =>
    have hcheck : nodeCount [nullCheck operand negated] = 1 := rfl
    cases negated <;>
      rw [tree, Tree.size, Tree.sizes, Tree.sizes, ih, parts, ← List.singleton_append,
        nodeCount_append, hcheck, Nat.add_zero]

theorem total_trees (es : List Expr) :
    Tree.total (es.map tree) = nodeCount (es.flatMap parts) :=
  total_of_size fun e _ => size_tree e

theorem sizes_branch? (label : String) (o : Option Expr) :
    Tree.sizes (branch? label tree o) = nodeCount (o.toList.flatMap parts) := by
  rw [← total_trees]
  cases o with
  | none => rfl
  | some e => rfl

end Expr

theorem TableName.size_tree (t : TableName) : t.tree.size = 1 + t.names.length := by
  obtain ⟨database, table⟩ := t
  cases database with
  | none => rfl
  | some database => rfl

theorem TableName.sizes_branch? (label : String) (o : Option TableName) :
    Tree.sizes (branch? label tree o) = (o.toList.flatMap names).length + o.toList.length := by
  cases o with
  | none => rfl
  | some t =>
    rw [branch?, Tree.sizes, Tree.sizes, size_tree, Option.toList_some, List.flatMap_singleton,
      List.length_singleton]
    omega

theorem total_leaves (names : List String) :
    Tree.total (names.map (Tree.leaf .box)) = names.length := by
  induction names with
  | nil => rfl
  | cons name names ih =>
    rw [List.map_cons, Tree.total, ih, List.length_cons]
    exact Nat.add_comm 1 names.length

namespace Statement

/-- The tables of a statement. -/
def tables : Statement → List TableName
  | use _ => []
  | select query => query.source.toList
  | insert insertion => [insertion.table]
  | delete deletion => [deletion.table]

/-- The number of lists that belong to the statement itself. -/
def ownLists : Statement → Nat
  | use _ | delete _ => 0
  | select _ => 1
  | insert _ => 2

/-- One node for the statement itself and one for each expression, name, table and list of it. -/
def nodeCount (s : Statement) : Nat :=
  1 + s.parts.length + s.names.length + s.tables.length +
    (s.ownLists + s.parts.countP Expr.isCall)

/-- A statement is drawn with as many nodes. -/
theorem size_tree (s : Statement) : s.tree.size = s.nodeCount := by
  have hcount : s.nodeCount =
      1 + s.names.length + s.tables.length + s.ownLists + Expr.nodeCount s.parts := by
    rw [nodeCount, Expr.nodeCount]
    omega
  rw [hcount, tree, Tree.size]
  cases s with
  | use database => rfl
  | select query =>
    simp only [branches, parts, expressions, names, tables, ownLists, Tree.sizes,
      Tree.sizes_append, Tree.size_list, Expr.total_trees, Expr.sizes_branch?,
      TableName.sizes_branch?, List.flatMap_append, Expr.nodeCount_append]
    omega
  | insert insertion =>
    simp only [branches, parts, expressions, names, tables, ownLists, Tree.sizes, Tree.size_list,
      Expr.total_trees, total_leaves, TableName.size_tree, List.length_append,
      List.length_singleton]
    omega
  | delete deletion =>
    simp only [branches, parts, expressions, names, tables, ownLists, Tree.sizes,
      TableName.size_tree, Expr.size_tree, List.flatMap_singleton, List.length_singleton]
    omega

/-- The number of nodes of all statements of a forest. -/
def nodeCountOfAll : List Statement → Nat
  | [] => 0
  | s :: forest => s.nodeCount + nodeCountOfAll forest

theorem total_trees (forest : List Statement) :
    Tree.total (forest.map tree) = nodeCountOfAll forest := by
  induction forest with
  | nil => rfl
  | cons s forest ih => rw [List.map_cons, Tree.total, size_tree, ih, nodeCountOfAll]

/-- The diagram of a forest is a forest.  Its lines declare a node for each statement, expression,
name, table and list, numbered in their order, and edges to greater numbers.  One edge leads to each
node but those of the statements, and these stand in the chain of roots in their order. -/
theorem dotText_isForest (forest : List Statement) :
    ∃ g : Graph, Dot.lines (dotText forest) = (Dot.graphLines g).map String.toList ++ [[]] ∧
      Dot.nodes (dotText forest) = g.nodes ∧ Dot.edges (dotText forest) = g.edges ∧
      g.nodes.map Node.number = List.range' 1 (nodeCountOfAll forest) ∧
      (∀ e ∈ g.edges, e.source ∈ g.numbers ∧ e.target ∈ g.numbers ∧ e.source < e.target) ∧
      (∀ n ∈ g.numbers, n ∉ g.roots → g.edges.countP (fun e => e.target = n) = 1) ∧
      (∀ n ∈ g.roots, g.edges.countP (fun e => e.target = n) = 0) ∧
      g.edges.length + forest.length = nodeCountOfAll forest ∧
      g.roots.length = forest.length ∧
      ∀ before s behind, forest = before ++ s :: behind →
        g.roots[before.length]? = some (nodeCountOfAll before + 1) ∧
          ⟨nodeCountOfAll before + 1, .box, s.keyword.spelling⟩ ∈ g.nodes := by
  have hforest := Tree.isForest_graph (forest.map tree)
  have hroots : (Tree.graph (forest.map tree)).roots.length = forest.length := by
    rw [Tree.graph, Tree.length_roots, List.length_map]
  have hnodes : (Tree.graph (forest.map tree)).nodes.length = nodeCountOfAll forest := by
    rw [Tree.graph, Tree.length_allNodes, total_trees]
  refine ⟨Tree.graph (forest.map tree), Dot.lines_dot _, Dot.nodes_dot _, Dot.edges_dot _, ?_, ?_,
    fun n => hforest.countP_of_not_root, fun n => hforest.countP_root, ?_, hroots, ?_⟩
  · rw [← hnodes]
    exact hforest.numbered
  · intro e he
    exact ⟨hforest.source_mem e he, hforest.target_mem he, hforest.source_lt e he⟩
  · have hlength := hforest.length_edges
    rwa [hroots, hnodes] at hlength
  · rintro before s behind rfl
    rw [List.map_append, List.map_cons, Tree.graph, Tree.roots_append, Tree.allNodes_append,
      total_trees, Nat.add_comm 1]
    have hlength : (Tree.roots 1 (before.map tree)).length = before.length := by
      rw [Tree.length_roots, List.length_map]
    refine ⟨?_, List.mem_append_right _ (List.mem_append_left _ List.mem_cons_self)⟩
    rw [List.getElem?_append_right (Nat.le_of_eq hlength), hlength, Nat.sub_self]
    rfl

end Statement

end SqlForest
