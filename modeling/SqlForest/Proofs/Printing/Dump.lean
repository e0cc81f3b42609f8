import SqlForest.Proofs.Expr
import SqlForest.Proofs.Printing.Lexemes
import SqlForest.Proofs.Text.ToldApart
import SqlForest.Statement.Dump

/-!
# Telling dumps apart

The dump of an expression begins with a word for its form and holds everything else between two
parentheses.  Names and strings stand there as they are, so dumps are told apart if names are made
of the characters of words and strings do not hold the parenthesis that ends them (`Expr.Legible`).
Then the dump of an expression shows where it ends (`Expr.dump_append_inj`), the dump of a statement
does as well, and different forests have different dumps (`Statement.dumpAll_inj`).
-/

namespace SqlForest

/-- The text is made of characters that can go on a word. -/
structure IsRun (text : String) : Prop where
  ne_nil : text.toList ≠ []
  parts : text.toList.all isWordPart

/-- The text does not hold the parenthesis that ends a string in a dump. -/
def IsEnclosed (text : String) : Prop :=
  ')' ∉ text.toList

/-- The expression has a dump that can be told apart from others. -/
abbrev Expr.Legible (e : Expr) : Prop :=
  e.Each IsRun IsEnclosed

/-! ## Names -/

section Names

variable {name name' : String} {c : Char} {x y : List Char}

theorem IsRun.head (h : IsRun name) (hc : isWordPart c = false) :
    name.toList.head?.any fun d => some c ≠ some d := by
  cases hname : name.toList with
  | nil => exact absurd hname h.ne_nil
  | cons d rest =>
    have hd := List.all_eq_true.mp h.parts d (by rw [hname]; exact List.mem_cons_self)
    refine decide_eq_true ?_
    rintro ⟨⟩
    rw [hc] at hd
    cases hd

/-- Names are told apart by what ends them. -/
theorem IsRun.append_inj (h : IsRun name) (h' : IsRun name') (hx : x.head?.any isWordPart = false)
    (hy : y.head?.any isWordPart = false) (heq : name.toList ++ x = name'.toList ++ y) :
    name = name' ∧ x = y := by
  obtain ⟨hname, hrest⟩ := run_append_inj h.parts h'.parts hx hy heq
  exact ⟨String.toList_inj.mp hname, hrest⟩

end Names

/-! ## Words in front of parentheses -/

/-- The text is a word made of letters. -/
def IsWord (word : String) : Prop :=
  word.toList ≠ [] ∧ word.toList.all Char.isAlpha

section Words

variable {word word' content content' : String} {c : Char} {x y : List Char}

theorem IsWord.head (h : IsWord word) (hc : c.isAlpha = false) (behind : String) :
    (word ++ behind).toList.head?.any fun d => some c ≠ some d := by
  rw [String.toList_append]
  cases hword : word.toList with
  | nil => exact absurd hword h.1
  | cons d rest =>
    have hd := List.all_eq_true.mp h.2 d (by rw [hword]; exact List.mem_cons_self)
    refine decide_eq_true ?_
    rintro ⟨⟩
    rw [hc] at hd
    cases hd

/-- A word in front of a parenthesis is told apart from another one. -/
theorem IsWord.append_inj (h : IsWord word) (h' : IsWord word')
    (heq : (word ++ "(" ++ content).toList ++ x = (word' ++ "(" ++ content').toList ++ y) :
    word = word' ∧ content.toList ++ x = content'.toList ++ y := by
  simp only [String.toList_append, List.append_assoc] at heq
  have hend : ∀ z : List Char, ("(".toList ++ z).head?.any Char.isAlpha = false := by
    intro z
    rfl
  obtain ⟨hword, hcontent⟩ := run_append_inj h.2 h'.2 (hend _) (hend _) heq
  exact ⟨String.toList_inj.mp hword, List.append_cancel_left hcontent⟩

/-- The same with the other parenthesis behind the content. -/
theorem IsWord.closed_append_inj (h : IsWord word) (h' : IsWord word')
    (heq : (word ++ "(" ++ content ++ ")").toList ++ x =
      (word' ++ "(" ++ content' ++ ")").toList ++ y) :
    word = word' ∧ content.toList ++ ')' :: x = content'.toList ++ ')' :: y := by
  have hassoc : ∀ word content : String,
      (word ++ "(" ++ content ++ ")") = word ++ "(" ++ (content ++ ")") :=
    fun _ _ => String.append_assoc
  rw [hassoc, hassoc] at heq
  obtain ⟨hword, hcontent⟩ := h.append_inj h' heq
  rw [String.toList_append, String.toList_append, List.append_assoc, List.append_assoc] at hcontent
  exact ⟨hword, hcontent⟩

end Words

/-! ## Lists in brackets -/

theorem toList_bracketed (items : List String) :
    (bracketed items).toList =
      '[' :: ([',', ' '].intercalate (items.map String.toList) ++ [']']) := by
  rw [bracketed, String.toList_append, String.toList_append, String.toList_intercalate]
  rfl

/-- Lists in brackets are told apart if their items are. -/
theorem bracketed_append_inj {α : Type} (stop : List Char → Prop) {code : α → String}
    {as bs : List α} {x y : List Char}
    (happart : ∀ a ∈ as, ∀ b ∈ bs, ToldApart stop (fun a => (code a).toList) a b)
    (hcomma : ∀ z, stop (',' :: z)) (hclosing : ∀ z, stop (']' :: z))
    (has : ∀ a ∈ as, (code a).toList.head?.any fun d => some ']' ≠ some d)
    (hbs : ∀ b ∈ bs, (code b).toList.head?.any fun d => some ']' ≠ some d)
    (h : (bracketed (as.map code)).toList ++ x = (bracketed (bs.map code)).toList ++ y) :
    as = bs ∧ x = y := by
  rw [toList_bracketed, toList_bracketed, List.map_map, List.map_map, List.cons_append,
    List.cons_append, List.append_assoc, List.append_assoc] at h
  obtain ⟨heq, hrest⟩ := intercalate_append_inj happart (fun z => hcomma _)
    ⟨hclosing x, by simp, hbs⟩ ⟨hclosing y, by simp, has⟩ (List.cons.inj h).2
  exact ⟨heq, (List.cons.inj hrest).2⟩

theorem names_append_inj {ns ns' : List String} (h : ∀ n ∈ ns, IsRun n) (h' : ∀ n ∈ ns', IsRun n)
    {x y : List Char} (heq : (bracketed ns).toList ++ x = (bracketed ns').toList ++ y) :
    ns = ns' ∧ x = y := by
  rw [← List.map_id ns, ← List.map_id ns'] at heq
  refine bracketed_append_inj (fun z => z.head?.any isWordPart = false) ?_
    (fun _ => rfl) (fun _ => rfl) (fun n hn => (h n hn).head rfl)
    (fun n hn => (h' n hn).head rfl) heq
  intro n hn n' hn' x y hx hy hname
  exact (h n hn).append_inj (h' n' hn') hx hy hname

/-! ## Expressions -/

namespace Expr

/-- The word that a dump begins with. -/
def form : Expr → String
  | identifier _ => "Id"
  | number _ => "Num"
  | string _ => "Str"
  | call _ _ => "FunctionApplication"
  | binary _ _ _ => "BinOp"
  | unary _ _ => "UnOp"
  | nullCheck _ false => "IsNull"
  | nullCheck _ true => "IsNotNull"

/-- What a dump holds between its parentheses. -/
def content : Expr → String
  | identifier name => name
  | number value => Integer.text value
  | string body => body
  | call name arguments => "fun=" ++ name ++ ", args=" ++ bracketed (dumps arguments)
  | binary op left right => dump left ++ "," ++ op.symbol ++ "," ++ dump right
  | unary op operand => op.symbol ++ "," ++ dump operand
  | nullCheck operand _ => dump operand

theorem dump_eq (e : Expr) : e.dump = e.form ++ "(" ++ e.content ++ ")" := by
  cases e with
  | identifier name => rfl
  | number value => rfl
  | string body => rfl
  | call name arguments =>
    show _ = "FunctionApplication" ++ "(" ++
      ("fun=" ++ name ++ ", args=" ++ bracketed (dumps arguments)) ++ ")"
    simp only [← String.append_assoc]
    rfl
  | binary op left right =>
    show _ = "BinOp" ++ "(" ++ (dump left ++ "," ++ op.symbol ++ "," ++ dump right) ++ ")"
    simp only [← String.append_assoc]
    rfl
  | unary op operand =>
    show _ = "UnOp" ++ "(" ++ (op.symbol ++ "," ++ dump operand) ++ ")"
    simp only [← String.append_assoc]
    rfl
  | nullCheck operand negated =>
    cases negated with
    | false => rfl
    | true => rfl

theorem isWord_form (e : Expr) : IsWord e.form := by
  unfold form
  split
  all_goals exact ⟨by decide, by decide⟩

/-- The expressions are of one form. -/
inductive Alike : Expr → Expr → Prop
  | identifier (n n' : String) : Alike (.identifier n) (.identifier n')
  | number (v v' : Int) : Alike (.number v) (.number v')
  | string (s s' : String) : Alike (.string s) (.string s')
  | call (n n' : String) (as as' : List Expr) : Alike (.call n as) (.call n' as')
  | binary (op op' : BinaryOp) (l l' r r' : Expr) : Alike (.binary op l r) (.binary op' l' r')
  | unary (op op' : UnaryOp) (e e' : Expr) : Alike (.unary op e) (.unary op' e')
  | nullCheck (e e' : Expr) (negated : Bool) : Alike (.nullCheck e negated) (.nullCheck e' negated)

theorem alike_of_form {e e' : Expr} (h : e.form = e'.form) : Alike e e' := by
  revert h
  unfold form
  split <;> split <;> intro h
  all_goals first
    | constructor
    | exact absurd h (by decide)

theorem head_dump (e : Expr) {c : Char} (hc : c.isAlpha = false) :
    e.dump.toList.head?.any fun d => some c ≠ some d := by
  rw [dump_eq, String.append_assoc, String.append_assoc]
  exact e.isWord_form.head hc _

/-- Dumps that go on alike are of one form, and their contents go on alike. -/
theorem alike_of_dump {e e' : Expr} {x y : List Char}
    (h : e.dump.toList ++ x = e'.dump.toList ++ y) :
    Alike e e' ∧ e.content.toList ++ ')' :: x = e'.content.toList ++ ')' :: y := by
  rw [dump_eq, dump_eq] at h
  obtain ⟨hform, hcontent⟩ := e.isWord_form.closed_append_inj e'.isWord_form h
  exact ⟨alike_of_form hform, hcontent⟩

theorem comma_not_mem_binary (op : BinaryOp) : ',' ∉ op.symbol.toList := by
  cases op <;> decide

theorem comma_not_mem_unary (op : UnaryOp) : ',' ∉ op.symbol.toList := by
  cases op <;> decide

theorem closing_not_mem_number (value : Int) : ')' ∉ (Integer.text value).toList := by
  intro hmem
  rcases Integer.isDigit_of_mem_text hmem with h | h
  · exact absurd h (by decide)
  · exact absurd h (by decide)

/-- The dump of an expression shows where it ends. -/
theorem dump_append_inj {e e' : Expr} (h : e.Legible) (h' : e'.Legible) {x y : List Char}
    (heq : e.dump.toList ++ x = e'.dump.toList ++ y) : e = e' ∧ x = y := by
  induction e using Expr.induction generalizing e' x y with
  | identifier name =>
    obtain ⟨halike, hcontent⟩ := alike_of_dump heq
    cases halike with
    | identifier _ name' =>
      obtain ⟨rfl, hrest⟩ := h.append_inj h' rfl rfl hcontent
      exact ⟨rfl, (List.cons.inj hrest).2⟩
  | number value =>
    obtain ⟨halike, hcontent⟩ := alike_of_dump heq
    cases halike with
    | number _ value' =>
      obtain ⟨hvalue, hrest⟩ := append_mark_inj (closing_not_mem_number value)
        (closing_not_mem_number value') hcontent
      rw [Integer.text_injective (String.toList_inj.mp hvalue)]
      exact ⟨rfl, hrest⟩
  | string body =>
    obtain ⟨halike, hcontent⟩ := alike_of_dump heq
    cases halike with
    | string _ body' =>
      obtain ⟨hbody, hrest⟩ := append_mark_inj h h' hcontent
      rw [String.toList_inj.mp hbody]
      exact ⟨rfl, hrest⟩
  | call name arguments ih =>
    obtain ⟨halike, hcontent⟩ := alike_of_dump heq
    cases halike with
    | call _ name' _ arguments' =>
      simp only [content, String.toList_append, List.append_assoc] at hcontent
      obtain ⟨rfl, harguments⟩ := h.1.append_inj h'.1 rfl rfl (List.append_cancel_left hcontent)
      have hlist := List.append_cancel_left harguments
      rw [dumps_eq_map, dumps_eq_map] at hlist
      have happart : ∀ a ∈ arguments, ∀ a' ∈ arguments',
          ToldApart (fun _ => True) (fun e => e.dump.toList) a a' := by
        intro a ha a' ha' x y _ _
        exact ih a ha (eachOfAll_iff.mp h.2 a ha) (eachOfAll_iff.mp h'.2 a' ha')
      obtain ⟨rfl, hrest⟩ := bracketed_append_inj _ happart (fun _ => trivial) (fun _ => trivial)
        (fun a _ => a.head_dump rfl) (fun a _ => a.head_dump rfl) hlist
      exact ⟨rfl, (List.cons.inj hrest).2⟩
  | binary op left right hleft hright =>
    obtain ⟨halike, hcontent⟩ := alike_of_dump heq
    cases halike with
    | binary _ op' _ left' _ right' =>
      simp only [content, String.toList_append, List.append_assoc] at hcontent
      obtain ⟨rfl, hbehind⟩ := hleft h.1 h'.1 hcontent
      have hmark : op.symbol.toList ++ ',' :: (right.dump.toList ++ ')' :: x) =
          op'.symbol.toList ++ ',' :: (right'.dump.toList ++ ')' :: y) :=
        List.append_cancel_left hbehind
      obtain ⟨hop, hoperand⟩ := append_mark_inj (comma_not_mem_binary op)
        (comma_not_mem_binary op') hmark
      obtain rfl := BinaryOp.symbol_injective (String.toList_inj.mp hop)
      obtain ⟨rfl, hrest⟩ := hright h.2 h'.2 hoperand
      exact ⟨rfl, (List.cons.inj hrest).2⟩
  | unary op operand ih =>
    obtain ⟨halike, hcontent⟩ := alike_of_dump heq
    cases halike with
    | unary _ op' _ operand' =>
      simp only [content, String.toList_append, List.append_assoc] at hcontent
      have hmark : op.symbol.toList ++ ',' :: (operand.dump.toList ++ ')' :: x) =
          op'.symbol.toList ++ ',' :: (operand'.dump.toList ++ ')' :: y) := hcontent
      have hoperand' : operand'.Legible := h'
      obtain ⟨hop, hbehind⟩ := append_mark_inj (comma_not_mem_unary op)
        (comma_not_mem_unary op') hmark
      obtain rfl := UnaryOp.symbol_injective (String.toList_inj.mp hop)
      obtain ⟨rfl, hrest⟩ := ih h hoperand' hbehind
      exact ⟨rfl, (List.cons.inj hrest).2⟩
  | nullCheck operand negated ih =>
    obtain ⟨halike, hcontent⟩ := alike_of_dump heq
    cases halike with
    | nullCheck _ operand' _ =>
      have hoperand' : operand'.Legible := h'
      obtain ⟨rfl, hrest⟩ := ih h hoperand' hcontent
      exact ⟨rfl, (List.cons.inj hrest).2⟩

theorem dumps_append_inj {es es' : List Expr} (h : ∀ e ∈ es, e.Legible)
    (h' : ∀ e ∈ es', e.Legible) {x y : List Char}
    (heq : (bracketed (dumps es)).toList ++ x = (bracketed (dumps es')).toList ++ y) :
    es = es' ∧ x = y := by
  rw [dumps_eq_map, dumps_eq_map] at heq
  refine bracketed_append_inj (fun _ => True) ?_ (fun _ => trivial) (fun _ => trivial)
    (fun e _ => e.head_dump rfl) (fun e _ => e.head_dump rfl) heq
  intro e he e' he' x y _ _
  exact dump_append_inj (h e he) (h' e' he')

end Expr

/-! ## Tables and parts that may be left out -/

namespace TableName

/-- What a dump holds between its parentheses. -/
def content : TableName → String
  | ⟨some database, table⟩ => database ++ "." ++ table
  | ⟨none, table⟩ => table

theorem dump_eq (t : TableName) : t.dump = "TableId" ++ "(" ++ t.content ++ ")" := by
  obtain ⟨database, table⟩ := t
  cases database with
  | none => rfl
  | some database =>
    show _ = "TableId" ++ "(" ++ (database ++ "." ++ table) ++ ")"
    simp only [← String.append_assoc]
    rfl

theorem isWord : IsWord "TableId" :=
  ⟨by decide, by decide⟩

theorem head_dump (t : TableName) {c : Char} (hc : c.isAlpha = false) :
    t.dump.toList.head?.any fun d => some c ≠ some d := by
  rw [dump_eq, String.append_assoc, String.append_assoc]
  exact isWord.head hc _

/-- The dump of a table shows where it ends. -/
theorem dump_append_inj {t t' : TableName} (h : ∀ n ∈ t.names, IsRun n)
    (h' : ∀ n ∈ t'.names, IsRun n) {x y : List Char}
    (heq : t.dump.toList ++ x = t'.dump.toList ++ y) : t = t' ∧ x = y := by
  rw [dump_eq, dump_eq] at heq
  obtain ⟨-, hcontent⟩ := isWord.closed_append_inj isWord heq
  obtain ⟨database, table⟩ := t
  obtain ⟨database', table'⟩ := t'
  have htable : IsRun table := h table (List.mem_append_right _ List.mem_cons_self)
  have htable' : IsRun table' := h' table' (List.mem_append_right _ List.mem_cons_self)
  cases database with
  | none =>
    cases database' with
    | none =>
      obtain ⟨rfl, hrest⟩ := htable.append_inj htable' rfl rfl hcontent
      exact ⟨rfl, (List.cons.inj hrest).2⟩
    | some database' =>
      have hdatabase' : IsRun database' := h' database' List.mem_cons_self
      simp only [content, String.toList_append, List.append_assoc] at hcontent
      obtain ⟨-, hmark⟩ := htable.append_inj hdatabase' rfl rfl hcontent
      exact absurd (List.cons.inj hmark).1 (by decide)
  | some database =>
    have hdatabase : IsRun database := h database List.mem_cons_self
    cases database' with
    | none =>
      simp only [content, String.toList_append, List.append_assoc] at hcontent
      obtain ⟨-, hmark⟩ := hdatabase.append_inj htable' rfl rfl hcontent
      exact absurd (List.cons.inj hmark).1 (by decide)
    | some database' =>
      have hdatabase' : IsRun database' := h' database' List.mem_cons_self
      simp only [content, String.toList_append, List.append_assoc] at hcontent
      obtain ⟨rfl, hbehind⟩ := hdatabase.append_inj hdatabase' rfl rfl hcontent
      obtain ⟨rfl, hrest⟩ := htable.append_inj htable' rfl rfl (List.append_cancel_left hbehind)
      exact ⟨rfl, (List.cons.inj hrest).2⟩

end TableName

/-- A part is told apart from another one, and from its absence. -/
theorem dumpOptional_append_inj {α : Type} {dump : α → String} {o o' : Option α}
    (hhead : ∀ a, (dump a).toList.head?.any fun d => some '(' ≠ some d)
    (happart : ∀ a ∈ o, ∀ a' ∈ o', ToldApart (fun _ => True) (fun a => (dump a).toList) a a')
    {x y : List Char}
    (h : (dumpOptional dump o).toList ++ x = (dumpOptional dump o').toList ++ y) :
    o = o' ∧ x = y := by
  have hne : ∀ a (z w : List Char), (dump a).toList ++ z ≠ "(omitted)".toList ++ w := by
    intro a z w heq
    have hopen := hhead a
    cases ha : (dump a).toList with
    | nil =>
      rw [ha] at hopen
      cases hopen
    | cons d rest =>
      rw [ha] at hopen heq
      have hd : d = '(' := (List.cons.inj heq).1
      rw [hd] at hopen
      simp at hopen
  cases o with
  | none =>
    cases o' with
    | none => exact ⟨rfl, List.append_cancel_left h⟩
    | some a' => exact absurd h.symm (hne a' y x)
  | some a =>
    cases o' with
    | none => exact absurd h (hne a x y)
    | some a' =>
      obtain ⟨rfl, hrest⟩ := happart a rfl a' rfl x y trivial trivial h
      exact ⟨rfl, hrest⟩

/-! ## Statements -/

namespace Statement

/-- Every name and every string of the statement is as described. -/
structure Each (name body : String → Prop) (s : Statement) : Prop where
  names : ∀ n ∈ s.names, name n
  expressions : ∀ e ∈ s.expressions, e.Each name body

/-- The statement has a dump that can be told apart from others. -/
abbrev Legible (s : Statement) : Prop :=
  s.Each IsRun IsEnclosed

/-- The word that a dump begins with. -/
def form : Statement → String
  | use _ => "Use"
  | select _ => "Select"
  | insert _ => "Insert"
  | delete _ => "Delete"

/-- What stands behind the first parenthesis of a dump. -/
def content : Statement → String
  | use database => "databaseName=" ++ database ++ ")"
  | select query =>
    "\n  list=" ++ bracketed (Expr.dumps query.items)
      ++ "\n  from=" ++ dumpOptional TableName.dump query.source
      ++ "\n  where=" ++ dumpOptional Expr.dump query.condition
      ++ "\n  orderBy=" ++ dumpOptional Expr.dump query.order ++ "\n)"
  | insert insertion =>
    "\n  into=" ++ insertion.table.dump
      ++ "\n  columns=" ++ bracketed insertion.columns
      ++ "\n  values=" ++ bracketed (Expr.dumps insertion.values) ++ "\n)"
  | delete deletion =>
    "\n  from=" ++ deletion.table.dump ++ "\n  where=" ++ deletion.condition.dump ++ "\n)"

theorem isWord_form (s : Statement) : IsWord s.form := by
  unfold form
  split
  all_goals exact ⟨by decide, by decide⟩

theorem dump_eq (s : Statement) : s.dump = s.form ++ "(" ++ s.content := by
  cases s
  all_goals
    delta dump form content
    simp only [← String.append_assoc]
    rfl

theorem select_append_inj {q q' : Select} (h : (select q).Legible) (h' : (select q').Legible)
    {x y : List Char}
    (heq : (select q).content.toList ++ x = (select q').content.toList ++ y) :
    q = q' ∧ x = y := by
  delta content at heq
  simp only [String.toList_append, List.append_assoc] at heq
  have hitems : ∀ {q : Select}, (select q).Legible → ∀ e ∈ q.items, e.Legible :=
    fun h e he => h.expressions e (List.mem_append_left _ he)
  have hsource : ∀ {q : Select}, (select q).Legible → ∀ t ∈ q.source, ∀ n ∈ t.names, IsRun n :=
    fun h t ht n hn => h.names n (List.mem_flatMap.mpr ⟨t, Option.mem_toList.mpr ht, hn⟩)
  have hcondition : ∀ {q : Select}, (select q).Legible → ∀ e ∈ q.condition, e.Legible :=
    fun h e he => h.expressions e
      (List.mem_append_right _ (List.mem_append_left _ (Option.mem_toList.mpr he)))
  have horder : ∀ {q : Select}, (select q).Legible → ∀ e ∈ q.order, e.Legible :=
    fun h e he => h.expressions e
      (List.mem_append_right _ (List.mem_append_right _ (Option.mem_toList.mpr he)))
  obtain ⟨heqItems, hbehind⟩ :=
    Expr.dumps_append_inj (hitems h) (hitems h') (List.append_cancel_left heq)
  obtain ⟨heqSource, hbehind⟩ := dumpOptional_append_inj (fun t => TableName.head_dump t rfl)
    (fun t ht t' ht' x y _ _ => TableName.dump_append_inj (hsource h t ht) (hsource h' t' ht'))
    (List.append_cancel_left hbehind)
  obtain ⟨heqCondition, hbehind⟩ := dumpOptional_append_inj (fun e => Expr.head_dump e rfl)
    (fun e he e' he' x y _ _ => Expr.dump_append_inj (hcondition h e he) (hcondition h' e' he'))
    (List.append_cancel_left hbehind)
  obtain ⟨heqOrder, hrest⟩ := dumpOptional_append_inj (fun e => Expr.head_dump e rfl)
    (fun e he e' he' x y _ _ => Expr.dump_append_inj (horder h e he) (horder h' e' he'))
    (List.append_cancel_left hbehind)
  obtain ⟨items, source, condition, order⟩ := q
  obtain rfl : items = _ := heqItems
  obtain rfl : source = _ := heqSource
  obtain rfl : condition = _ := heqCondition
  obtain rfl : order = _ := heqOrder
  exact ⟨rfl, List.append_cancel_left hrest⟩

theorem insert_append_inj {i i' : Insert} (h : (insert i).Legible) (h' : (insert i').Legible)
    {x y : List Char}
    (heq : (insert i).content.toList ++ x = (insert i').content.toList ++ y) :
    i = i' ∧ x = y := by
  delta content at heq
  simp only [String.toList_append, List.append_assoc] at heq
  have hnames : ∀ {i : Insert}, (insert i).Legible →
      (∀ n ∈ i.table.names, IsRun n) ∧ ∀ n ∈ i.columns, IsRun n :=
    fun h => List.forall_mem_append.mp h.names
  obtain ⟨heqTable, hbehind⟩ :=
    TableName.dump_append_inj (hnames h).1 (hnames h').1 (List.append_cancel_left heq)
  obtain ⟨heqColumns, hbehind⟩ :=
    names_append_inj (hnames h).2 (hnames h').2 (List.append_cancel_left hbehind)
  obtain ⟨heqValues, hrest⟩ :=
    Expr.dumps_append_inj h.expressions h'.expressions (List.append_cancel_left hbehind)
  obtain ⟨table, columns, values⟩ := i
  obtain rfl : table = _ := heqTable
  obtain rfl : columns = _ := heqColumns
  obtain rfl : values = _ := heqValues
  exact ⟨rfl, List.append_cancel_left hrest⟩

theorem delete_append_inj {d d' : Delete} (h : (delete d).Legible) (h' : (delete d').Legible)
    {x y : List Char}
    (heq : (delete d).content.toList ++ x = (delete d').content.toList ++ y) :
    d = d' ∧ x = y := by
  delta content at heq
  simp only [String.toList_append, List.append_assoc] at heq
  obtain ⟨heqTable, hbehind⟩ :=
    TableName.dump_append_inj h.names h'.names (List.append_cancel_left heq)
  obtain ⟨heqCondition, hrest⟩ := Expr.dump_append_inj (h.expressions _ List.mem_cons_self)
    (h'.expressions _ List.mem_cons_self) (List.append_cancel_left hbehind)
  obtain ⟨table, condition⟩ := d
  obtain rfl : table = _ := heqTable
  obtain rfl : condition = _ := heqCondition
  exact ⟨rfl, List.append_cancel_left hrest⟩

/-- The dump of a statement shows where it ends. -/
theorem dump_append_inj {s s' : Statement} (h : s.Legible) (h' : s'.Legible) {x y : List Char}
    (heq : s.dump.toList ++ x = s'.dump.toList ++ y) : s = s' ∧ x = y := by
  rw [dump_eq, dump_eq] at heq
  obtain ⟨hform, hcontent⟩ := s.isWord_form.append_inj s'.isWord_form heq
  cases s with
  | use database =>
    cases s' with
    | use database' =>
      delta content at hcontent
      simp only [String.toList_append, List.append_assoc] at hcontent
      obtain ⟨rfl, hrest⟩ := (h.names database List.mem_cons_self).append_inj
        (h'.names database' List.mem_cons_self) rfl rfl (List.append_cancel_left hcontent)
      exact ⟨rfl, (List.cons.inj hrest).2⟩
    | _ => exact absurd hform (by simp [form])
  | select query =>
    cases s' with
    | select query' =>
      obtain ⟨rfl, hrest⟩ := select_append_inj h h' hcontent
      exact ⟨rfl, hrest⟩
    | _ => exact absurd hform (by simp [form])
  | insert insertion =>
    cases s' with
    | insert insertion' =>
      obtain ⟨rfl, hrest⟩ := insert_append_inj h h' hcontent
      exact ⟨rfl, hrest⟩
    | _ => exact absurd hform (by simp [form])
  | delete deletion =>
    cases s' with
    | delete deletion' =>
      obtain ⟨rfl, hrest⟩ := delete_append_inj h h' hcontent
      exact ⟨rfl, hrest⟩
    | _ => exact absurd hform (by simp [form])

theorem head_dump (s : Statement) {c : Char} (hc : c.isAlpha = false) :
    s.dump.toList.head?.any fun d => some c ≠ some d := by
  rw [dump_eq, String.append_assoc]
  exact s.isWord_form.head hc _

/-- Forests of statements whose names are made of the characters of words, and whose strings do not
hold a closing parenthesis, have different dumps if they are different. -/
theorem dumpAll_inj {forest forest' : List Statement} (h : ∀ s ∈ forest, s.Legible)
    (h' : ∀ s ∈ forest', s.Legible) (heq : dumpAll forest = dumpAll forest') :
    forest = forest' := by
  have hcloses : ∀ forest : List Statement,
      Closes (fun _ => True) (fun s : Statement => s.dump.toList) '\n' forest [] := by
    intro forest
    refine ⟨trivial, by simp, ?_⟩
    intro s _
    have hhead := s.head_dump (c := ' ') rfl
    cases hs : s.dump.toList with
    | nil =>
      rw [hs] at hhead
      cases hhead
    | cons d rest => rfl
  have happart : ∀ s ∈ forest, ∀ s' ∈ forest',
      ToldApart (fun _ => True) (fun s => s.dump.toList) s s' := by
    intro s hs s' hs' x y _ _
    exact dump_append_inj (h s hs) (h' s' hs')
  have hlist : ['\n'].intercalate (forest.map fun s => s.dump.toList) ++ [] =
      ['\n'].intercalate (forest'.map fun s => s.dump.toList) ++ [] := by
    have hdump := congrArg String.toList heq
    rw [dumpAll, dumpAll, String.toList_intercalate, String.toList_intercalate, List.map_map,
      List.map_map] at hdump
    rw [List.append_nil, List.append_nil]
    exact hdump
  exact (intercalate_append_inj happart (fun _ => trivial) (hcloses forest') (hcloses forest)
    hlist).1

/-- Such forests have the same dump only if they are the same.  Nothing is asked of their integers,
lists and trees. -/
theorem dumpAll_eq_iff {forest forest' : List Statement} (h : ∀ s ∈ forest, s.Legible)
    (h' : ∀ s ∈ forest', s.Legible) : dumpAll forest = dumpAll forest' ↔ forest = forest' :=
  ⟨dumpAll_inj h h', congrArg dumpAll⟩

/-- A negative number is told apart from a number behind a minus sign. -/
theorem dumpAll_ne_of_minus :
    dumpAll [insert ⟨⟨some "d", "t"⟩, [], [.number (-5)]⟩] ≠
      dumpAll [insert ⟨⟨some "d", "t"⟩, [], [.unary .minus (.number 5)]⟩] := by
  have hnames : ∀ n ∈ ["d", "t"], IsRun n :=
    List.forall_mem_cons.mpr ⟨⟨by decide, by decide⟩,
      List.forall_mem_singleton.mpr ⟨by decide, by decide⟩⟩
  have hlegible : ∀ value : Expr, value.Legible →
      ∀ s ∈ [insert ⟨⟨some "d", "t"⟩, [], [value]⟩], s.Legible := by
    intro value hvalue s hs
    rw [List.mem_singleton.mp hs]
    exact ⟨hnames, List.forall_mem_singleton.mpr hvalue⟩
  have hnegative : (Expr.number (-5)).Legible := trivial
  have hminus : (Expr.unary .minus (.number 5)).Legible := trivial
  intro hdump
  exact absurd ((dumpAll_eq_iff (hlegible _ hnegative) (hlegible _ hminus)).mp hdump) (by decide)

end Statement

end SqlForest
