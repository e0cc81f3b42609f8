import Mathlib.Data.List.Nodup
import SqlForest.Proofs.Diagram.Numbering

/-!
# What a graph shows

`ShownAt g n t` says that the graph has the tree at the node with a number: the node is the root of
the tree, and the edges that leave it lead to the branches in their order.  The graph of trees shows
each of them at its root (`Tree.shownAll_graph`).  If no number is given to two nodes, a graph shows
no two trees at one of them (`ShownAt.unique`).  A tree and the one that has nodes in the place of
its forks are the same in a graph.
-/

namespace SqlForest

namespace Tree

/-- The shape of the root. -/
def shape : Tree → Shape
  | node shape _ _ => shape
  | fork _ _ _ => .circle

/-- The label of the root. -/
def label : Tree → String
  | node _ label _ => label
  | fork label _ _ => label

/-- The branches at the root with their labels. -/
def branches : Tree → List (String × Tree)
  | node _ _ branches => branches
  | fork _ first second => [("first", first), ("second", second)]

mutual

/-- The tree with a node in the place of each fork. -/
def withoutForks : Tree → Tree
  | node shape label branches => node shape label (branchesWithoutForks branches)
  | fork label first second =>
    node .circle label [("first", withoutForks first), ("second", withoutForks second)]

/-- The branches with a node in the place of each fork. -/
def branchesWithoutForks : List (String × Tree) → List (String × Tree)
  | [] => []
  | (label, t) :: branches => (label, withoutForks t) :: branchesWithoutForks branches

end

theorem withoutForks_eq (t : Tree) :
    t.withoutForks = node t.shape t.label (branchesWithoutForks t.branches) := by
  cases t with
  | node shape label branches => rfl
  | fork label first second => rfl

theorem branchesWithoutForks_eq_map (branches : List (String × Tree)) :
    branchesWithoutForks branches = branches.map fun b => (b.1, b.2.withoutForks) := by
  induction branches with
  | nil => rfl
  | cons b branches ih => rw [branchesWithoutForks, ih, List.map_cons]

end Tree

/-! ## Edges from a node -/

/-- The edges that leave a node, in their order. -/
def edgesFrom (edges : List Edge) (n : Nat) : List Edge :=
  edges.filter fun e => e.source = n

section EdgesFrom

variable {n : Nat} {e : Edge} {es fs : List Edge}

theorem edgesFrom_append : edgesFrom (es ++ fs) n = edgesFrom es n ++ edgesFrom fs n :=
  List.filter_append es fs

theorem edgesFrom_cons_self (h : e.source = n) : edgesFrom (e :: es) n = e :: edgesFrom es n :=
  List.filter_cons_of_pos (decide_eq_true h)

theorem edgesFrom_cons_of_ne (h : e.source ≠ n) : edgesFrom (e :: es) n = edgesFrom es n :=
  List.filter_cons_of_neg (by simpa using h)

theorem edgesFrom_eq_nil (h : ∀ e ∈ es, e.source ≠ n) : edgesFrom es n = [] := by
  rw [edgesFrom, List.filter_eq_nil_iff]
  intro e he
  simpa using h e he

end EdgesFrom

/-! ## Trees in graphs -/

mutual

/-- The graph has the tree at the node with a number. -/
inductive ShownAt (g : Graph) : Nat → Tree → Prop
  | root {n : Nat} {t : Tree} (hnode : ⟨n, t.shape, t.label⟩ ∈ g.nodes)
      (hbranches : ShownBy g (edgesFrom g.edges n) t.branches) : ShownAt g n t

/-- The edges lead to the branches, one to each. -/
inductive ShownBy (g : Graph) : List Edge → List (String × Tree) → Prop
  | nil : ShownBy g [] []
  | cons {e : Edge} {es : List Edge} {t : Tree} {branches : List (String × Tree)}
      (hbranch : ShownAt g e.target t) (hlater : ShownBy g es branches) :
      ShownBy g (e :: es) ((e.label, t) :: branches)

end

variable {g : Graph}

mutual

/-- A graph shows one tree at a node. -/
theorem ShownAt.unique (hnumbers : g.numbers.Nodup) {n : Nat} {t t' : Tree} :
    ShownAt g n t → ShownAt g n t' → t.withoutForks = t'.withoutForks
  | .root hnode hbranches, .root hnode' hbranches' => by
    have hroot := List.inj_on_of_nodup_map hnumbers hnode hnode' rfl
    obtain ⟨-, hshape, hlabel⟩ := Node.mk.inj hroot
    rw [Tree.withoutForks_eq t, Tree.withoutForks_eq t', hshape, hlabel,
      hbranches.unique hnumbers hbranches']

theorem ShownBy.unique (hnumbers : g.numbers.Nodup) {es : List Edge}
    {branches branches' : List (String × Tree)} :
    ShownBy g es branches → ShownBy g es branches' →
      Tree.branchesWithoutForks branches = Tree.branchesWithoutForks branches'
  | .nil, .nil => rfl
  | .cons hbranch hlater, .cons hbranch' hlater' => by
    rw [Tree.branchesWithoutForks, Tree.branchesWithoutForks, hbranch.unique hnumbers hbranch',
      hlater.unique hnumbers hlater']

end

theorem ShownAt.map_unique (hnumbers : g.numbers.Nodup) {ns : List Nat} {trees trees' : List Tree}
    (h : List.Forall₂ (ShownAt g) ns trees) (h' : List.Forall₂ (ShownAt g) ns trees') :
    trees.map Tree.withoutForks = trees'.map Tree.withoutForks := by
  induction h generalizing trees' with
  | nil =>
    cases h'
    rfl
  | cons hfirst hlater ih =>
    cases h' with
    | cons hfirst' hlater' =>
      rw [List.map_cons, List.map_cons, hfirst.unique hnumbers hfirst', ih hlater']

/-! ## The graph of trees -/

namespace Tree

/-- No edge of a tree leaves a node outside of the tree. -/
theorem edgesFrom_edges_eq_nil {number n : Nat} {t : Tree}
    (h : n < number ∨ number + t.size ≤ n) : edgesFrom (edges number t) n = [] := by
  refine edgesFrom_eq_nil fun e he => ?_
  have hends := ends_of_mem_edges he
  omega

mutual

/-- A graph shows a tree if it has the nodes of the tree and no further edges from them. -/
theorem shownAt {number : Nat} :
    {t : Tree} → (∀ node ∈ nodes number t, node ∈ g.nodes) →
      (∀ n, number ≤ n → n < number + t.size →
        edgesFrom g.edges n = edgesFrom (edges number t) n) → ShownAt g number t
  | node shape label branches, hnodes, hedges => by
    obtain ⟨hroot, hnodes⟩ := List.forall_mem_cons.mp hnodes
    rw [size] at hedges
    refine .root hroot ?_
    rw [hedges number (Nat.le_refl _) (by omega)]
    refine shownBy (Nat.lt_succ_self number) hnodes fun n hlow hhigh => ?_
    exact hedges n (by omega) (by omega)
  | fork label first second, hnodes, hedges => by
    obtain ⟨hroot, hnodes⟩ := List.forall_mem_cons.mp hnodes
    obtain ⟨hfirst, hsecond⟩ := List.forall_mem_append.mp hnodes
    rw [size] at hedges
    -- From a node of one branch lead the edges of that branch alone: those of the other one and
    -- the two of the fork leave nodes with other numbers.
    have hsplit : ∀ n, edgesFrom (edges number (fork label first second)) n =
        edgesFrom (edges (number + 1) first) n ++
          edgesFrom (edges (number + 1 + first.size) second) n ++
            edgesFrom [⟨number, number + 1, "first"⟩,
              ⟨number, number + 1 + first.size, "second"⟩] n := by
      intro n
      rw [edges, edgesFrom_append, edgesFrom_append]
    have hbelow : ∀ n, number < n → edgesFrom [⟨number, number + 1, "first"⟩,
        ⟨number, number + 1 + first.size, "second"⟩] n = [] := by
      intro n hn
      rw [edgesFrom_cons_of_ne (Nat.ne_of_lt hn), edgesFrom_cons_of_ne (Nat.ne_of_lt hn)]
      rfl
    have hshownFirst : ShownAt g (number + 1) first := shownAt hfirst fun n hlow hhigh => by
      rw [hedges n (by omega) (by omega), hsplit, hbelow n hlow,
        edgesFrom_edges_eq_nil (t := second) (.inl hhigh), List.append_nil, List.append_nil]
    have hshownSecond : ShownAt g (number + 1 + first.size) second :=
      shownAt hsecond fun n hlow hhigh => by
        rw [hedges n (by omega) (by omega), hsplit, hbelow n (by omega),
          edgesFrom_edges_eq_nil (t := first) (.inr hlow), List.nil_append, List.append_nil]
    refine .root hroot ?_
    rw [hedges number (Nat.le_refl _) (by omega), hsplit, edgesFrom_edges_eq_nil (.inl (by omega)),
      edgesFrom_edges_eq_nil (.inl (by omega)), List.nil_append, List.nil_append,
      edgesFrom_cons_self rfl, edgesFrom_cons_self rfl]
    exact .cons hshownFirst (.cons hshownSecond .nil)

/-- The same for branches of a node whose number is less than those of the branches. -/
theorem shownBy {source number : Nat} (hsource : source < number) :
    {branches : List (String × Tree)} → (∀ node ∈ branchNodes number branches, node ∈ g.nodes) →
      (∀ n, number ≤ n → n < number + sizes branches →
        edgesFrom g.edges n = edgesFrom (branchEdges source number branches) n) →
      ShownBy g (edgesFrom (branchEdges source number branches) source) branches
  | [], _, _ => .nil
  | (label, t) :: branches, hnodes, hedges => by
    obtain ⟨hfirst, hlater⟩ := List.forall_mem_append.mp hnodes
    have hpos := t.size_pos
    rw [sizes] at hedges
    have hsplit : ∀ n, edgesFrom (branchEdges source number ((label, t) :: branches)) n =
        edgesFrom (edges number t) n ++ edgesFrom (⟨source, number, label⟩ ::
          branchEdges source (number + t.size) branches) n := fun n => edgesFrom_append
    have hbelow : ∀ n, number ≤ n → edgesFrom (⟨source, number, label⟩ ::
        branchEdges source (number + t.size) branches) n =
          edgesFrom (branchEdges source (number + t.size) branches) n :=
      fun n hn => edgesFrom_cons_of_ne (Nat.ne_of_lt (Nat.lt_of_lt_of_le hsource hn))
    -- The node of all branches has a lesser number than `t`, the later branches have greater ones.
    have hshown : ShownAt g number t := shownAt hfirst fun n hlow hhigh => by
      have hlast : edgesFrom (branchEdges source (number + t.size) branches) n = [] := by
        refine edgesFrom_eq_nil fun e he => ?_
        have hends := ends_of_mem_branchEdges (Nat.lt_add_right t.size hsource) he
        omega
      rw [hedges n hlow (by omega), hsplit, hbelow n hlow, hlast, List.append_nil]
    have hshownLater := shownBy (Nat.lt_add_right t.size hsource) hlater fun n hlow hhigh => by
      rw [hedges n (by omega) (by omega), hsplit, hbelow n (by omega),
        edgesFrom_edges_eq_nil (.inr hlow), List.nil_append]
    rw [hsplit, edgesFrom_edges_eq_nil (.inl hsource), List.nil_append, edgesFrom_cons_self rfl]
    exact .cons hshown hshownLater

end

/-- A graph shows trees if it has all their nodes and no further edges from them. -/
theorem shownAll {number : Nat} {trees : List Tree}
    (hnodes : ∀ node ∈ allNodes number trees, node ∈ g.nodes)
    (hedges : ∀ n, number ≤ n → edgesFrom g.edges n = edgesFrom (allEdges number trees) n) :
    List.Forall₂ (ShownAt g) (roots number trees) trees := by
  induction trees generalizing number with
  | nil => exact .nil
  | cons t trees ih =>
    obtain ⟨hfirst, hlater⟩ := List.forall_mem_append.mp hnodes
    have hsplit : ∀ n, edgesFrom (allEdges number (t :: trees)) n =
        edgesFrom (edges number t) n ++ edgesFrom (allEdges (number + t.size) trees) n :=
      fun n => edgesFrom_append
    refine .cons (shownAt hfirst fun n hlow hhigh => ?_) (ih hlater fun n hlow => ?_)
    · have hlast : edgesFrom (allEdges (number + t.size) trees) n = [] := by
        refine edgesFrom_eq_nil fun e he => ?_
        have hends := ends_of_mem_allEdges he
        omega
      rw [hedges n hlow, hsplit, hlast, List.append_nil]
    · rw [hedges n (by omega), hsplit, edgesFrom_edges_eq_nil (.inr hlow), List.nil_append]

/-- The graph of trees shows each of them at its root. -/
theorem shownAll_graph (trees : List Tree) :
    List.Forall₂ (ShownAt (graph trees)) (graph trees).roots trees :=
  shownAll (fun _ h => h) (fun _ _ => rfl)

/-- Trees with the same graph are the same but for forks. -/
theorem map_withoutForks_of_graph {trees trees' : List Tree} (h : graph trees = graph trees') :
    trees.map withoutForks = trees'.map withoutForks :=
  ShownAt.map_unique (isForest_graph trees').nodup_numbers (h ▸ shownAll_graph trees)
    (shownAll_graph trees')

end Tree

end SqlForest
