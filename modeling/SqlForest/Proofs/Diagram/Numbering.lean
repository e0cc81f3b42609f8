import SqlForest.Graph

/-!
# The graph of trees is a forest

A tree takes the numbers from that of its root on, one for each node, and so the nodes of a graph
are numbered in their order (`Tree.map_number_allNodes`).  An edge is added behind all edges of the
branch that it leads to, but whatever the order, the numbers that edges lead to are those of all
nodes but the roots, each of them once (`Tree.perm_allEdges`).  This is what makes the graph of any
trees a forest (`Tree.isForest_graph`).
-/

namespace SqlForest

namespace Tree

/-! ## Numbers of nodes -/

mutual

theorem map_number_nodes (number : Nat) :
    (t : Tree) → (nodes number t).map Node.number = List.range' number t.size
  | node shape label branches => by
    rw [nodes, List.map_cons, map_number_branchNodes, size, Nat.add_comm 1, List.range'_succ]
  | fork label first second => by
    rw [nodes, List.map_cons, List.map_append, map_number_nodes, map_number_nodes, size,
      Nat.add_assoc 1, Nat.add_comm 1, List.range'_succ, ← List.range'_append_1]

theorem map_number_branchNodes (number : Nat) :
    (branches : List (String × Tree)) →
      (branchNodes number branches).map Node.number = List.range' number (sizes branches)
  | [] => rfl
  | (_, t) :: branches => by
    rw [branchNodes, List.map_append, map_number_nodes, map_number_branchNodes, sizes,
      ← List.range'_append_1]

end

/-- The number of nodes of all trees of a list. -/
def total : List Tree → Nat
  | [] => 0
  | t :: trees => t.size + total trees

theorem total_append (ts ts' : List Tree) : total (ts ++ ts') = total ts + total ts' := by
  induction ts with
  | nil => rw [List.nil_append, total, Nat.zero_add]
  | cons t ts ih => rw [List.cons_append, total, total, ih, Nat.add_assoc]

theorem sizes_eq_total (branches : List (String × Tree)) :
    sizes branches = total (branches.map Prod.snd) := by
  induction branches with
  | nil => rfl
  | cons b branches ih => rw [sizes, ih, List.map_cons, total]

theorem sizes_append (branches branches' : List (String × Tree)) :
    sizes (branches ++ branches') = sizes branches + sizes branches' := by
  rw [sizes_eq_total, sizes_eq_total, sizes_eq_total, List.map_append, total_append]

/-- The branches of a list are its items. -/
theorem map_snd_items (items : List Tree) :
    (items.mapIdx fun index item => (Integer.naturalText index, item)).map Prod.snd = items := by
  refine List.ext_getElem? fun i => ?_
  rw [List.getElem?_map, List.getElem?_mapIdx, Option.map_map]
  exact Option.map_id'

theorem size_list (items : List Tree) : (list items).size = 1 + total items := by
  rw [list, size, sizes_eq_total, map_snd_items]

/-- The nodes of trees are numbered in their order. -/
theorem map_number_allNodes (number : Nat) (trees : List Tree) :
    (allNodes number trees).map Node.number = List.range' number (total trees) := by
  induction trees generalizing number with
  | nil => rfl
  | cons t trees ih =>
    rw [allNodes, List.map_append, map_number_nodes, ih, total, ← List.range'_append_1]

theorem allNodes_append (number : Nat) (ts ts' : List Tree) :
    allNodes number (ts ++ ts') = allNodes number ts ++ allNodes (number + total ts) ts' := by
  induction ts generalizing number with
  | nil => rfl
  | cons t ts ih =>
    rw [List.cons_append, allNodes, allNodes, ih, total, List.append_assoc, Nat.add_assoc]

theorem roots_append (number : Nat) (ts ts' : List Tree) :
    roots number (ts ++ ts') = roots number ts ++ roots (number + total ts) ts' := by
  induction ts generalizing number with
  | nil => rfl
  | cons t ts ih =>
    rw [List.cons_append, roots, roots, ih, total, List.cons_append, Nat.add_assoc]

theorem length_roots (number : Nat) (trees : List Tree) :
    (roots number trees).length = trees.length := by
  induction trees generalizing number with
  | nil => rfl
  | cons t trees ih => rw [roots, List.length_cons, ih, List.length_cons]

/-! ## Ends of edges -/

theorem size_pos (t : Tree) : 0 < t.size := by
  cases t with
  | node shape label branches =>
    rw [size]
    omega
  | fork label first second =>
    rw [size]
    omega

mutual

/-- The edges of a tree join nodes of the tree and lead to greater numbers. -/
theorem ends_of_mem_edges {number : Nat} {e : Edge} :
    {t : Tree} → e ∈ edges number t →
      number ≤ e.source ∧ e.source < e.target ∧ e.target < number + t.size
  | node shape label branches, h => by
    have hends := ends_of_mem_branchEdges (Nat.lt_succ_self number) h
    rw [size]
    omega
  | fork label first second, h => by
    rw [edges, List.mem_append, List.mem_append, List.mem_cons, List.mem_singleton] at h
    have hfirst := first.size_pos
    have hsecond := second.size_pos
    rw [size]
    obtain (h | h) | (rfl | rfl) := h
    · have hends := ends_of_mem_edges h
      omega
    · have hends := ends_of_mem_edges h
      omega
    · show number ≤ number ∧ number < number + 1 ∧ number + 1 < _
      omega
    · show number ≤ number ∧ number < number + 1 + first.size ∧ number + 1 + first.size < _
      omega

/-- The edges of branches join nodes of the branches, but for those that lead to the branches. -/
theorem ends_of_mem_branchEdges {source number : Nat} {e : Edge} (hsource : source < number) :
    {branches : List (String × Tree)} → e ∈ branchEdges source number branches →
      (e.source = source ∨ number ≤ e.source) ∧ e.source < e.target ∧
        e.target < number + sizes branches
  | (_, t) :: branches, h => by
    rw [branchEdges, List.mem_append, List.mem_cons] at h
    have hpos := t.size_pos
    rw [sizes]
    obtain h | rfl | h := h
    · have hends := ends_of_mem_edges h
      omega
    · show (source = source ∨ number ≤ source) ∧ source < number ∧ number < _
      omega
    · have hends := ends_of_mem_branchEdges (Nat.lt_add_right t.size hsource) h
      omega

end

mutual

/-- Every node of a tree but the root is what one edge leads to. -/
theorem perm_edges (number : Nat) :
    (t : Tree) →
      (number :: (edges number t).map Edge.target).Perm ((nodes number t).map Node.number)
  | node shape label branches => by
    rw [nodes, edges, List.map_cons]
    exact .cons _ (perm_branchEdges number (number + 1) branches)
  | fork label first second => by
    have hfirst := perm_edges (number + 1) first
    have hsecond := perm_edges (number + 1 + first.size) second
    rw [nodes, edges, List.map_cons, List.map_append, List.map_append, List.map_append]
    refine .cons number (.trans ?_ (hfirst.append hsecond))
    -- The edges to both branches are the last ones, the roots of the branches come first in each.
    refine List.perm_append_comm.trans ?_
    simp only [List.map_cons, List.map_nil, List.cons_append, List.nil_append]
    exact List.perm_middle.symm.cons (number + 1)

theorem perm_branchEdges (source number : Nat) :
    (branches : List (String × Tree)) →
      ((branchEdges source number branches).map Edge.target).Perm
        ((branchNodes number branches).map Node.number)
  | [] => .nil
  | (_, t) :: branches => by
    have hfirst := perm_edges number t
    have hlater := perm_branchEdges source (number + t.size) branches
    rw [branchEdges, branchNodes, List.map_append, List.map_append, List.map_cons]
    exact List.perm_middle.trans (hfirst.append hlater)

end

theorem perm_allEdges (number : Nat) (trees : List Tree) :
    (roots number trees ++ (allEdges number trees).map Edge.target).Perm
      ((allNodes number trees).map Node.number) := by
  induction trees generalizing number with
  | nil => exact .nil
  | cons t trees ih =>
    rw [roots, allEdges, allNodes, List.map_append, List.map_append, List.cons_append]
    have hmoved := List.perm_append_comm_assoc (roots (number + t.size) trees)
      ((edges number t).map Edge.target) ((allEdges (number + t.size) trees).map Edge.target)
    exact (hmoved.cons number).trans ((perm_edges number t).append (ih _))

theorem ends_of_mem_allEdges {number : Nat} {e : Edge} {trees : List Tree}
    (h : e ∈ allEdges number trees) :
    number ≤ e.source ∧ e.source < e.target ∧ e.target < number + total trees := by
  induction trees generalizing number with
  | nil => cases h
  | cons t trees ih =>
    rw [total]
    rcases List.mem_append.mp h with h | h
    · have hends := ends_of_mem_edges h
      omega
    · have hends := ih h
      omega

theorem le_of_mem_roots {number n : Nat} {trees : List Tree} (h : n ∈ roots number trees) :
    number ≤ n := by
  induction trees generalizing number with
  | nil => cases h
  | cons t trees ih =>
    rcases List.mem_cons.mp h with rfl | h
    · exact Nat.le_refl _
    · exact Nat.le_trans (Nat.le_add_right _ _) (ih h)

/-- The roots of trees are numbered in their order. -/
theorem pairwise_roots (number : Nat) (trees : List Tree) :
    (roots number trees).Pairwise (· < ·) := by
  induction trees generalizing number with
  | nil => exact .nil
  | cons t trees ih =>
    refine .cons (fun n hn => ?_) (ih _)
    have hle := le_of_mem_roots hn
    have hpos := t.size_pos
    omega

end Tree

/-! ## Forests -/

namespace Graph

/-- The numbers of the nodes of a graph. -/
def numbers (g : Graph) : List Nat :=
  g.nodes.map Node.number

/-- The nodes and the roots are numbered in their order, edges lead to greater numbers, and every
number but those of the roots is what one edge leads to. -/
structure IsForest (g : Graph) : Prop where
  numbered : g.numbers = List.range' 1 g.nodes.length
  ordered : g.roots.Pairwise (· < ·)
  source_mem : ∀ e ∈ g.edges, e.source ∈ g.numbers
  source_lt : ∀ e ∈ g.edges, e.source < e.target
  targets : (g.roots ++ g.edges.map Edge.target).Perm g.numbers

namespace IsForest

variable {g : Graph} {n : Nat}

theorem nodup_numbers (h : g.IsForest) : g.numbers.Nodup :=
  h.numbered ▸ List.nodup_range'

theorem nodup_targets (h : g.IsForest) : (g.roots ++ g.edges.map Edge.target).Nodup :=
  h.targets.nodup_iff.mpr h.nodup_numbers

theorem target_mem (h : g.IsForest) {e : Edge} (he : e ∈ g.edges) : e.target ∈ g.numbers :=
  h.targets.mem_iff.mp (List.mem_append_right _ (List.mem_map_of_mem he))

/-- There are as many edges as nodes that are no roots. -/
theorem length_edges (h : g.IsForest) : g.edges.length + g.roots.length = g.nodes.length := by
  have hlength := h.targets.length_eq
  rw [List.length_append, List.length_map, numbers, List.length_map] at hlength
  omega

theorem countP_target (g : Graph) (n : Nat) :
    g.edges.countP (fun e => e.target = n) = (g.edges.map Edge.target).count n := by
  rw [List.count, List.countP_map]
  rfl

/-- No edge leads to a root. -/
theorem countP_root (h : g.IsForest) (hn : n ∈ g.roots) :
    g.edges.countP (fun e => e.target = n) = 0 := by
  rw [countP_target, List.count_eq_zero]
  intro htarget
  exact (List.nodup_append.mp h.nodup_targets).2.2 n hn n htarget rfl

/-- One edge leads to each other node. -/
theorem countP_of_not_root (h : g.IsForest) (hn : n ∈ g.numbers) (hroot : n ∉ g.roots) :
    g.edges.countP (fun e => e.target = n) = 1 := by
  have htarget := (List.mem_append.mp (h.targets.mem_iff.mpr hn)).resolve_left hroot
  have hnodup := (List.nodup_append.mp h.nodup_targets).2.1
  rw [countP_target, hnodup.count, if_pos htarget]

/-- The nodes and the edges of a forest show which nodes are the roots. -/
theorem eq_of_nodes_of_edges {g g' : Graph} (h : g.IsForest) (h' : g'.IsForest)
    (hnodes : g.nodes = g'.nodes) (hedges : g.edges = g'.edges) : g = g' := by
  have hnumbers : g.numbers = g'.numbers := by
    rw [numbers, numbers, hnodes]
  -- The roots are what is left of the numbers without those that edges lead to.
  have htargets := h.targets
  rw [hnumbers, hedges] at htargets
  have hperm : g.roots.Perm g'.roots :=
    (List.perm_append_right_iff _).mp (htargets.trans h'.targets.symm)
  have hroots : g.roots = g'.roots :=
    hperm.eq_of_pairwise (fun a b _ _ hab hba => absurd hba (Nat.lt_asymm hab)) h.ordered h'.ordered
  obtain ⟨nodes, edges, roots⟩ := g
  obtain rfl : nodes = g'.nodes := hnodes
  obtain rfl : edges = g'.edges := hedges
  obtain rfl : roots = g'.roots := hroots
  rfl

end IsForest

end Graph

theorem Tree.length_allNodes (number : Nat) (trees : List Tree) :
    (allNodes number trees).length = total trees := by
  have hlength := congrArg List.length (map_number_allNodes number trees)
  rwa [List.length_map, List.length_range'] at hlength

/-- The graph of any trees is a forest. -/
theorem Tree.isForest_graph (trees : List Tree) : (graph trees).IsForest where
  numbered := by
    rw [graph, Graph.numbers, map_number_allNodes, length_allNodes]
  ordered := pairwise_roots 1 trees
  source_mem e he := by
    have hends := ends_of_mem_allEdges he
    rw [graph, Graph.numbers, map_number_allNodes, List.mem_range'_1]
    omega
  source_lt e he := (ends_of_mem_allEdges he).2.1
  targets := perm_allEdges 1 trees

end SqlForest
