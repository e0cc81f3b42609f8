import SqlForest.Proofs.Diagram.Reading
import SqlForest.Proofs.Diagram.Shown
import SqlForest.Proofs.Expr
import SqlForest.Statement.Diagram

/-!
# What a diagram does not show

A name and a string with the same characters are drawn alike.  That is all that a diagram does not
show: `Statement.unquoted` writes a name in the place of each string, and forests have the same
diagram if and only if they are then the same (`Statement.dotText_eq_iff`).
-/

namespace SqlForest

namespace Expr

mutual

/-- The expression with a name in the place of each string. -/
def unquoted : Expr → Expr
  | identifier name => identifier name
  | number value => number value
  | string body => identifier body
  | call name arguments => call name (unquotedAll arguments)
  | binary op left right => binary op left.unquoted right.unquoted
  | unary op operand => unary op operand.unquoted
  | nullCheck operand negated => nullCheck operand.unquoted negated

/-- The expressions with a name in the place of each string. -/
def unquotedAll : List Expr → List Expr
  | [] => []
  | e :: es => unquoted e :: unquotedAll es

end

theorem unquotedAll_eq_map (es : List Expr) : unquotedAll es = es.map unquoted := by
  induction es with
  | nil => rfl
  | cons e es ih => rw [unquotedAll, ih, List.map_cons]

/-- A name is drawn like the string that it stands for. -/
theorem tree_unquoted (e : Expr) : e.unquoted.tree = e.tree := by
  induction e using Expr.induction with
  | identifier name => rfl
  | number value => rfl
  | string body => rfl
  | call name arguments ih =>
    have htrees : arguments.map (tree ∘ unquoted) = arguments.map tree := List.map_congr_left ih
    rw [unquoted, unquotedAll_eq_map, tree, tree, trees_eq_map, trees_eq_map, List.map_map, htrees]
  | binary op left right hleft hright => rw [unquoted, tree, tree, hleft, hright]
  | unary op operand ih => rw [unquoted, tree, tree, ih]
  | nullCheck operand negated ih => cases negated <;> rw [unquoted, tree, tree, ih]

end Expr

namespace Statement

/-- The statement with a name in the place of each string. -/
def unquoted : Statement → Statement
  | use database => use database
  | select query =>
    select ⟨query.items.map Expr.unquoted, query.source, query.condition.map Expr.unquoted,
      query.order.map Expr.unquoted⟩
  | insert insertion =>
    insert ⟨insertion.table, insertion.columns, insertion.values.map Expr.unquoted⟩
  | delete deletion => delete ⟨deletion.table, deletion.condition.unquoted⟩

theorem tree_unquoted (s : Statement) : s.unquoted.tree = s.tree := by
  have htrees : Expr.tree ∘ Expr.unquoted = Expr.tree := funext Expr.tree_unquoted
  have hbranch : ∀ (label : String) (o : Option Expr),
      branch? label Expr.tree (o.map Expr.unquoted) = branch? label Expr.tree o := by
    intro label o
    cases o with
    | none => rfl
    | some e => rw [Option.map_some, branch?, branch?, Expr.tree_unquoted]
  cases s with
  | use database => rfl
  | select query =>
    rw [unquoted, tree, tree, branches, branches, List.map_map, htrees, hbranch, hbranch]
    rfl
  | insert insertion =>
    rw [unquoted, tree, tree, branches, branches, List.map_map, htrees]
    rfl
  | delete deletion =>
    rw [unquoted, tree, tree, branches, branches, Expr.tree_unquoted]
    rfl

/-- A forest has the diagram of the one with names in the place of strings. -/
theorem dotText_unquoted (forest : List Statement) :
    dotText (forest.map unquoted) = dotText forest := by
  rw [dotText, dotText, List.map_map, show tree ∘ unquoted = tree from funext tree_unquoted]

end Statement

/-! ## Lists and parts that may be left out -/

section Parts

variable {α β γ : Type} {f : α → β} {u : α → γ}

/-- If members with the same `f` have the same `u`, so have whole lists. -/
theorem map_eq_of_map_eq {as bs : List α} (hmembers : ∀ a ∈ as, ∀ b, f a = f b → u a = u b)
    (h : as.map f = bs.map f) : as.map u = bs.map u := by
  induction as generalizing bs with
  | nil =>
    cases bs with
    | nil => rfl
    | cons b bs => cases h
  | cons a as ih =>
    cases bs with
    | nil => cases h
    | cons b bs =>
      obtain ⟨hfirst, hlater⟩ := List.cons.inj h
      obtain ⟨ha, has⟩ := List.forall_mem_cons.mp hmembers
      rw [List.map_cons, List.map_cons, ha b hfirst, ih has hlater]

theorem optionMap_eq_of_map_eq {o o' : Option α} (hparts : ∀ a b, f a = f b → u a = u b)
    (h : o.map f = o'.map f) : o.map u = o'.map u := by
  cases o with
  | none =>
    cases o' with
    | none => rfl
    | some b => cases h
  | some a =>
    cases o' with
    | none => cases h
    | some b => rw [Option.map_some, Option.map_some, hparts a b (Option.some.inj h)]

end Parts

namespace Tree

/-- A list shows its items in their order. -/
theorem map_withoutForks_of_list {ts ts' : List Tree}
    (h : (list ts).withoutForks = (list ts').withoutForks) :
    ts.map withoutForks = ts'.map withoutForks := by
  have hitems : ∀ branches : List (String × Tree),
      (branchesWithoutForks branches).map Prod.snd = (branches.map Prod.snd).map withoutForks := by
    intro branches
    rw [branchesWithoutForks_eq_map, List.map_map, List.map_map]
    rfl
  -- The labels of the branches are indices, which depend on nothing but the length.
  rw [← map_snd_items ts, ← map_snd_items ts', ← hitems, ← hitems, (Tree.node.inj h).2.2]

end Tree

namespace Expr

/-! ## Expressions -/

section Drawn

variable (name : String) (op : BinaryOp) (sign : UnaryOp) (left right operand : Expr)

@[simp]
theorem drawn_identifier : (identifier name).tree.withoutForks = .node .box name [] := rfl

@[simp]
theorem drawn_number (value : Int) :
    (number value).tree.withoutForks = .node .ellipse (Integer.text value) [] := rfl

@[simp]
theorem drawn_string (body : String) : (string body).tree.withoutForks = .node .box body [] := rfl

@[simp]
theorem drawn_call (arguments : List Expr) :
    (call name arguments).tree.withoutForks =
      .node .ellipse name [("args", (Tree.list (arguments.map tree)).withoutForks)] := by
  rw [← trees_eq_map]
  rfl

@[simp]
theorem drawn_binary :
    (binary op left right).tree.withoutForks = .node .circle op.symbol
      [("first", left.tree.withoutForks), ("second", right.tree.withoutForks)] := rfl

@[simp]
theorem drawn_unary :
    (unary sign operand).tree.withoutForks =
      .node .circle sign.symbol [("", operand.tree.withoutForks)] := rfl

@[simp]
theorem drawn_nullCheck (negated : Bool) :
    (nullCheck operand negated).tree.withoutForks =
      .node .ellipse (if negated then "IS NOT NULL" else "IS NULL")
        [("", operand.tree.withoutForks)] := by
  cases negated <;> rfl

end Drawn

/-- Expressions that are drawn alike are the same but for strings. -/
theorem unquoted_eq_of_tree {e e' : Expr} (h : e.tree.withoutForks = e'.tree.withoutForks) :
    e.unquoted = e'.unquoted := by
  induction e using Expr.induction generalizing e' with
  | identifier name =>
    cases e' with
    | identifier | string => simpa [unquoted] using h
    | _ => simp at h
  | number value =>
    cases e' with
    | number value' =>
      simp only [drawn_number, Tree.node.injEq, true_and, and_true] at h
      rw [Integer.text_injective h]
    | _ => simp at h
  | string body =>
    cases e' with
    | identifier | string => simpa [unquoted] using h
    | _ => simp at h
  | call name arguments ih =>
    cases e' with
    | call name' arguments' =>
      simp only [drawn_call, Tree.node.injEq, List.cons.injEq, Prod.mk.injEq, true_and,
        and_true] at h
      obtain ⟨rfl, hlist⟩ := h
      have hitems := Tree.map_withoutForks_of_list hlist
      rw [List.map_map, List.map_map] at hitems
      rw [unquoted, unquoted, unquotedAll_eq_map, unquotedAll_eq_map,
        map_eq_of_map_eq (fun e he e' h => ih e he h) hitems]
    | _ => simp at h
  | binary op left right hleft hright =>
    cases e' with
    | binary op' left' right' =>
      simp only [drawn_binary, Tree.node.injEq, List.cons.injEq, Prod.mk.injEq, true_and,
        and_true] at h
      obtain ⟨hop, hfirst, hsecond⟩ := h
      rw [unquoted, unquoted, BinaryOp.symbol_injective hop, hleft hfirst, hright hsecond]
    | _ => simp at h
  | unary op operand ih =>
    cases e' with
    | unary op' operand' =>
      simp only [drawn_unary, Tree.node.injEq, List.cons.injEq, Prod.mk.injEq, true_and,
        and_true] at h
      rw [unquoted, unquoted, UnaryOp.symbol_injective h.1, ih h.2]
    | _ => simp at h
  | nullCheck operand negated ih =>
    cases e' with
    | nullCheck operand' negated' =>
      simp only [drawn_nullCheck, Tree.node.injEq, List.cons.injEq, Prod.mk.injEq, true_and,
        and_true] at h
      have hnegated : negated = negated' := by
        revert h
        cases negated <;> cases negated' <;> simp
      rw [unquoted, unquoted, hnegated, ih h.2]
    | _ => simp at h

end Expr

/-! ## Branches that may be left out -/

namespace Tree

theorem branchesWithoutForks_append (branches branches' : List (String × Tree)) :
    branchesWithoutForks (branches ++ branches') =
      branchesWithoutForks branches ++ branchesWithoutForks branches' := by
  rw [branchesWithoutForks_eq_map, branchesWithoutForks_eq_map, branchesWithoutForks_eq_map,
    List.map_append]

theorem branchesWithoutForks_branch? {α : Type} (label : String) (tree : α → Tree)
    (o : Option α) :
    branchesWithoutForks (branch? label tree o) =
      branch? label (fun a => (tree a).withoutForks) o := by
  cases o <;> rfl

end Tree

section Branches

variable {α : Type} {label : String} {tree : α → Tree} {o o' : Option α}
  {rest rest' : List (String × Tree)}

theorem label_ne_of_mem_branch? {label' : String} (hne : label ≠ label') :
    ∀ b ∈ branch? label tree o, b.1 ≠ label' := by
  intro b hb
  cases o with
  | none => cases hb
  | some a =>
    rw [List.mem_singleton.mp hb]
    exact hne

/-- Whether a branch is left out is told by what stands in its place. -/
theorem branch?_append_inj (hrest : ∀ b ∈ rest, b.1 ≠ label) (hrest' : ∀ b ∈ rest', b.1 ≠ label)
    (h : branch? label tree o ++ rest = branch? label tree o' ++ rest') :
    o.map tree = o'.map tree ∧ rest = rest' := by
  cases o with
  | none =>
    cases o' with
    | none => exact ⟨rfl, h⟩
    | some a' =>
      obtain rfl : rest = (label, tree a') :: rest' := h
      exact absurd rfl (hrest _ List.mem_cons_self)
  | some a =>
    cases o' with
    | none =>
      obtain rfl : (label, tree a) :: rest = rest' := h
      exact absurd rfl (hrest' _ List.mem_cons_self)
    | some a' =>
      obtain ⟨hbranch, hlater⟩ := List.cons.inj h
      rw [Option.map_some, Option.map_some, (Prod.mk.inj hbranch).2]
      exact ⟨rfl, hlater⟩

end Branches

/-! ## Statements -/

theorem TableName.eq_of_tree {t t' : TableName} (h : t.tree.withoutForks = t'.tree.withoutForks) :
    t = t' := by
  have hleaf : ∀ n n' : String,
      (Tree.leaf .box n).withoutForks = (Tree.leaf .box n').withoutForks → n = n' :=
    fun _ _ h => (Tree.node.inj h).2.1
  have htable : ∀ n : String, ∀ b ∈ [("table", (Tree.leaf .box n).withoutForks)],
      b.1 ≠ "database" := by
    intro n b hb
    rw [List.mem_singleton.mp hb]
    exact (by decide : "table" ≠ "database")
  rw [tree, tree, Tree.withoutForks, Tree.withoutForks, Tree.branchesWithoutForks_append,
    Tree.branchesWithoutForks_append, Tree.branchesWithoutForks_branch?,
    Tree.branchesWithoutForks_branch?] at h
  obtain ⟨hdatabase, hlast⟩ :=
    branch?_append_inj (htable t.table) (htable t'.table) (Tree.node.inj h).2.2
  have heqDatabase := (Option.map_inj_right hleaf).mp hdatabase
  have heqTable := hleaf _ _ (Prod.mk.inj (List.cons.inj hlast).1).2
  obtain ⟨database, table⟩ := t
  obtain rfl : database = _ := heqDatabase
  obtain rfl : table = _ := heqTable
  rfl

namespace Statement

theorem unquoted_select_of_branches {q q' : Select}
    (h : Tree.branchesWithoutForks (select q).branches =
      Tree.branchesWithoutForks (select q').branches) :
    (select q).unquoted = (select q').unquoted := by
  have hexpression : ∀ e e' : Expr, e.tree.withoutForks = e'.tree.withoutForks →
      e.unquoted = e'.unquoted := fun _ _ => Expr.unquoted_eq_of_tree
  simp only [branches, List.append_assoc, List.singleton_append, Tree.branchesWithoutForks,
    Tree.branchesWithoutForks_append, Tree.branchesWithoutForks_branch?] at h
  obtain ⟨hlist, hclauses⟩ := List.cons.inj h
  have hitems := Tree.map_withoutForks_of_list (Prod.mk.inj hlist).2
  rw [List.map_map, List.map_map] at hitems
  have hwhere : ∀ q : Select, ∀ b ∈ branch? "where" (fun e => e.tree.withoutForks) q.condition ++
      branch? "orderBy" (fun e => e.tree.withoutForks) q.order, b.1 ≠ "from" := fun q =>
    List.forall_mem_append.mpr
      ⟨label_ne_of_mem_branch? (by decide), label_ne_of_mem_branch? (by decide)⟩
  obtain ⟨hsource, hlater⟩ := branch?_append_inj (hwhere q) (hwhere q') hclauses
  obtain ⟨hcondition, hlast⟩ := branch?_append_inj (label_ne_of_mem_branch? (by decide))
    (label_ne_of_mem_branch? (by decide)) hlater
  -- Nothing stands behind the last clause, so an empty rest tells whether it is left out.
  rw [← List.append_nil (branch? _ _ q.order), ← List.append_nil (branch? _ _ q'.order)] at hlast
  obtain ⟨horder, -⟩ :=
    branch?_append_inj (List.forall_mem_nil _) (List.forall_mem_nil _) hlast
  have heqSource : q.source = q'.source :=
    (Option.map_inj_right fun _ _ => TableName.eq_of_tree).mp hsource
  rw [unquoted, unquoted, heqSource, map_eq_of_map_eq (fun e _ => hexpression e) hitems,
    optionMap_eq_of_map_eq hexpression hcondition, optionMap_eq_of_map_eq hexpression horder]

theorem unquoted_insert_of_branches {i i' : Insert}
    (h : Tree.branchesWithoutForks (insert i).branches =
      Tree.branchesWithoutForks (insert i').branches) :
    (insert i).unquoted = (insert i').unquoted := by
  simp only [branches, Tree.branchesWithoutForks, List.cons.injEq, Prod.mk.injEq, true_and,
    and_true] at h
  obtain ⟨htable, hcolumns, hvalues⟩ := h
  have hnames := Tree.map_withoutForks_of_list hcolumns
  have hitems := Tree.map_withoutForks_of_list hvalues
  rw [List.map_map, List.map_map] at hnames hitems
  have heqColumns := (List.map_inj_right fun _ _ hleaf => (Tree.node.inj hleaf).2.1).mp hnames
  rw [unquoted, unquoted, TableName.eq_of_tree htable, heqColumns,
    map_eq_of_map_eq (fun _ _ _ => Expr.unquoted_eq_of_tree) hitems]

/-- Statements that are drawn alike are the same but for strings. -/
theorem unquoted_eq_of_tree {s s' : Statement} (h : s.tree.withoutForks = s'.tree.withoutForks) :
    s.unquoted = s'.unquoted := by
  rw [tree, tree, Tree.withoutForks, Tree.withoutForks] at h
  obtain ⟨-, hspelling, hbranches⟩ := Tree.node.inj h
  have hkeyword := Keyword.spelling_injective hspelling
  cases s with
  | use database =>
    cases s' with
    | use database' =>
      have hleaf := (Prod.mk.inj (List.cons.inj hbranches).1).2
      rw [(Tree.node.inj hleaf).2.1]
    | _ => cases hkeyword
  | select query =>
    cases s' with
    | select query' => exact unquoted_select_of_branches hbranches
    | _ => cases hkeyword
  | insert insertion =>
    cases s' with
    | insert insertion' => exact unquoted_insert_of_branches hbranches
    | _ => cases hkeyword
  | delete deletion =>
    cases s' with
    | delete deletion' =>
      simp only [branches, Tree.branchesWithoutForks, List.cons.injEq, Prod.mk.injEq, true_and,
        and_true] at hbranches
      rw [unquoted, unquoted, TableName.eq_of_tree hbranches.1,
        Expr.unquoted_eq_of_tree hbranches.2]
    | _ => cases hkeyword

/-- Forests have the same diagram if and only if they are the same but for strings in the place of
names.  For labels are told apart, none of them closes its quotes or ends its line, and so the text
of a diagram declares just the nodes and the edges of its graph. -/
theorem dotText_eq_iff (forest forest' : List Statement) :
    (dotText forest = dotText forest' ↔ forest.map unquoted = forest'.map unquoted) ∧
      Function.Injective Graph.quote ∧
      (∀ (label : String) (rest : List Char),
        Dot.quoted? ((Graph.quote label).toList ++ rest) = some (label, rest)) ∧
      (∀ label : String,
        '\n' ∉ (Graph.quote label).toList ∧ '\r' ∉ (Graph.quote label).toList) ∧
      Dot.nodes (dotText forest) = (Tree.graph (forest.map tree)).nodes ∧
      Dot.edges (dotText forest) = (Tree.graph (forest.map tree)).edges := by
  refine ⟨⟨fun h => ?_, fun h => ?_⟩, ?_, Dot.quoted?_quote, Dot.lineEnd_not_mem_quote,
    Dot.nodes_dot _, Dot.edges_dot _⟩
  · have hgraph := Dot.eq_of_dot (Tree.isForest_graph (forest.map tree))
      (Tree.isForest_graph (forest'.map tree)) h
    have htrees := Tree.map_withoutForks_of_graph hgraph
    rw [List.map_map, List.map_map] at htrees
    exact map_eq_of_map_eq (fun _ _ _ => unquoted_eq_of_tree) htrees
  · rw [← dotText_unquoted forest, ← dotText_unquoted forest', h]
  · intro label label' h
    have hread := Dot.quoted?_quote label []
    rw [h, Dot.quoted?_quote] at hread
    exact (Prod.mk.inj (Option.some.inj hread)).1.symm

end Statement

end SqlForest
