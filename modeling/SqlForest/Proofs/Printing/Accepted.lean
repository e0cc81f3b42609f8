import SqlForest.Proofs.Printing.Lexemes
import SqlForest.Proofs.Script.Sentences
import SqlForest.Proofs.Token.WellFormed

/-!
# What is read can be written

The names, numbers and strings of a statement are lexemes of its tokens.  So whatever is read of
tokens with well-formed lexemes is printable (`Grammar.Sentence.printable`), and so are all
statements of a text (`printable_of_readScript`).
-/

namespace SqlForest

/-- All of the tokens have well-formed lexemes. -/
def Lexed (tokens : List Token) : Prop :=
  ∀ t ∈ tokens, t.toLexeme.WellFormed

namespace Lexed

variable {t : Token} {ts us : List Token}

theorem head (h : Lexed (t :: ts)) : t.toLexeme.WellFormed :=
  h t List.mem_cons_self

theorem tail (h : Lexed (t :: ts)) : Lexed ts :=
  fun u hu => h u (List.mem_cons_of_mem t hu)

theorem left (h : Lexed (ts ++ us)) : Lexed ts :=
  fun u hu => h u (List.mem_append_left us hu)

theorem right (h : Lexed (ts ++ us)) : Lexed us :=
  fun u hu => h u (List.mem_append_right ts hu)

theorem isName (h : Lexed (t :: ts)) (hkind : t.kind = .identifier) : IsName t.lexeme := by
  have hlexeme : Lexeme.WellFormed ⟨.identifier, t.lexeme⟩ := hkind ▸ h.head
  exact hlexeme.isName

theorem isStringBody (h : Lexed (t :: ts)) (hkind : t.kind = .string) :
    isStringBody t.lexeme.toList := by
  have hlexeme : Lexeme.WellFormed ⟨.string, t.lexeme⟩ := hkind ▸ h.head
  exact hlexeme.isStringBody

/-- The value of a number is neither negative nor beyond 64 bits. -/
theorem value (h : Lexed (t :: ts)) (hkind : t.kind = .number) {value : Int}
    (hvalue : Integer.ofText? t.lexeme = some value) :
    0 ≤ value ∧ value ≤ Integer.greatest := by
  have hlexeme : Lexeme.WellFormed ⟨.number, t.lexeme⟩ := hkind ▸ h.head
  obtain ⟨-, -, hread, hle⟩ := hlexeme.value
  rw [hread] at hvalue
  rw [← Option.some.inj hvalue]
  exact ⟨Int.natCast_nonneg _, hle⟩

end Lexed

namespace Grammar

variable {limit : Nat}

/-! ## Expressions -/

mutual

theorem Derives.printable {p : Phrase} {level : Nat} {ts : List Token} {e : Expr} :
    Derives limit p level ts e → Lexed ts → e.Printable
  | .expression _ chain, h => chain.printable h
  | .disjunct chain, h => chain.printable h
  | .negation _ _ operand, h => operand.printable h.tail
  | .conjunct check, h => check.printable h
  | .isNull operand _ _, h => operand.printable h.left
  | .isNotNull operand _ _ _, h => operand.printable h.left
  | .nullCheck operand, h => operand.printable h
  | .comparison chain, h => chain.printable h
  | .comparable chain, h => chain.printable h
  | .product left _ _ right, h => ⟨left.printable h.left, right.printable h.right.tail⟩
  | .term factor, h => factor.printable h
  | .name hname, h => h.isName hname
  | .emptyCall hname _ _, h => ⟨h.isName hname, trivial⟩
  | .call hname _ items _, h =>
    ⟨h.isName hname, Expr.allPrintable_iff.mpr (items.printable h.tail.tail.left)⟩
  | .parentheses _ inner _, h => inner.printable h.tail.left
  | .sign _ _ _ operand, h => operand.printable h.tail
  | .number hkind hvalue, h => h.value hkind hvalue
  | .string hkind, h => h.isStringBody hkind

theorem Chained.printable {c : Chain} {level further : Nat} {ts : List Token} {e : Expr} :
    Chained limit c level further ts e → Lexed ts → e.Printable
  | .first operand, h => operand.printable h
  | .further left _ _ right, h => ⟨left.printable h.left, right.printable h.right.tail⟩

theorem Items.printable {level : Nat} {ts : List Token} {es : List Expr} :
    Items limit level ts es → Lexed ts → ∀ e ∈ es, e.Printable
  | .one item, h => List.forall_mem_singleton.mpr (item.printable h)
  | .more items _ item, h =>
    List.forall_mem_append.mpr
      ⟨items.printable h.left, List.forall_mem_singleton.mpr (item.printable h.right.tail)⟩

end

theorem Items.ne_nil {level : Nat} {ts : List Token} {es : List Expr}
    (h : Items limit level ts es) : es ≠ [] := by
  cases h with
  | one item => exact List.cons_ne_nil _ _
  | more items _ item => exact List.append_ne_nil_of_right_ne_nil _ (List.cons_ne_nil _ _)

theorem Tuple.printable {level : Nat} {ts : List Token} {es : List Expr}
    (h : Tuple limit level ts es) (hts : Lexed ts) : ∀ e ∈ es, e.Printable := by
  cases h with
  | empty _ _ => exact nofun
  | items _ items _ => exact items.printable hts.tail.left

/-! ## Statements -/

theorem Name.isName {ts : List Token} {n : String} (h : Name ts n) (hts : Lexed ts) :
    IsName n := by
  cases h with
  | name hkind => exact hts.isName hkind

theorem Names.areNames {ts : List Token} {ns : List String} (h : Names ts ns) (hts : Lexed ts) :
    ns ≠ [] ∧ ∀ n ∈ ns, IsName n := by
  induction h with
  | one hname => exact ⟨List.cons_ne_nil _ _, List.forall_mem_singleton.mpr (hname.isName hts)⟩
  | more _ _ hlast ih =>
    refine ⟨List.append_ne_nil_of_right_ne_nil _ (List.cons_ne_nil _ _), ?_⟩
    exact List.forall_mem_append.mpr
      ⟨(ih hts.left).2, List.forall_mem_singleton.mpr (hlast.isName hts.right.tail)⟩

theorem Table.areNames {ts : List Token} {table : TableName} (h : Table ts table)
    (hts : Lexed ts) : ∀ n ∈ table.names, IsName n := by
  cases h with
  | plain hname => exact List.forall_mem_singleton.mpr (hname.isName hts)
  | qualified hdatabase _ htable =>
    exact List.forall_mem_cons.mpr ⟨hdatabase.isName hts.left,
      List.forall_mem_singleton.mpr (htable.isName hts.right.tail)⟩

theorem Clause.forall {α : Type} {word : Keyword} {content : List Token → α → Prop}
    {P : α → Prop} {ts : List Token} {clause : Option α} (h : Clause word content ts clause)
    (hts : Lexed ts) (hcontent : ∀ us a, content us a → Lexed us → P a) :
    ∀ a ∈ clause, P a := by
  cases h with
  | absent => exact nofun
  | present _ ha =>
    rintro _ ⟨⟩
    exact hcontent _ _ ha hts.tail

theorem Order.printable {ts : List Token} {e : Expr} (h : Order limit ts e) (hts : Lexed ts) :
    e.Printable := by
  cases h with
  | order _ hexpression => exact hexpression.printable hts.tail

/-- A statement that is read of well-formed lexemes is made of names, numbers and strings that can
be written. -/
theorem Sentence.printable {ts : List Token} {s : Statement} (h : Sentence limit ts s)
    (hts : Lexed ts) : s.Printable := by
  cases h with
  | use _ hname _ =>
    exact ⟨List.forall_mem_singleton.mpr (hname.isName hts.tail.left), nofun, trivial⟩
  | select _ hitems hsource hcondition horder _ =>
    have hclauses := hts.tail.right
    refine ⟨?_, ?_, hitems.ne_nil⟩
    · intro n hn
      obtain ⟨table, htable, hn⟩ := List.mem_flatMap.mp hn
      exact hsource.forall hclauses.left (fun _ _ => Table.areNames) table
        (Option.mem_toList.mp htable) n hn
    · refine List.forall_mem_append.mpr ⟨hitems.printable hts.tail.left, ?_⟩
      refine List.forall_mem_append.mpr ⟨?_, ?_⟩
      · intro e he
        exact hcondition.forall hclauses.right.left (fun _ _ => Derives.printable) e
          (Option.mem_toList.mp he)
      · intro e he
        exact horder.forall hclauses.right.right.left (fun _ _ => Order.printable) e
          (Option.mem_toList.mp he)
  | insert _ _ htable _ hcolumns _ _ hvalues _ =>
    have hbehind := hts.tail.tail.right.tail
    obtain ⟨hne, hnames⟩ := hcolumns.areNames hbehind.left
    refine ⟨List.forall_mem_append.mpr ⟨htable.areNames hts.tail.tail.left, hnames⟩, ?_, hne⟩
    exact hvalues.printable hbehind.right.tail.tail.left
  | delete _ _ htable _ hcondition _ =>
    have hbehind := hts.tail.tail.right.tail
    exact ⟨htable.areNames hts.tail.tail.left,
      List.forall_mem_singleton.mpr (hcondition.printable hbehind.left), trivial⟩

theorem Sentences.printable {ts : List Token} {forest : List Statement}
    (h : Sentences limit ts forest) (hts : Lexed ts) : ∀ s ∈ forest, s.Printable := by
  induction h with
  | nil => exact nofun
  | cons first _ ih => exact List.forall_mem_cons.mpr ⟨first.printable hts.left, ih hts.right⟩

end Grammar

/-- Every statement of a text is printable. -/
theorem printable_of_readScript {source text : String} {forest : List Statement}
    (h : readScript source text = .ok forest) : ∀ s ∈ forest, s.Printable := by
  unfold readScript at h
  split at h
  · rename_i stream hstream
    have hgather : gather (Session.ofStream stream).results = .ok forest := by
      rw [← Session.script_eq_gather]
      exact h
    have hsentences : Grammar.Sentences maxDepth stream.tokens forest :=
      sentences_of_allReadings (Session.results_eq_map_ok.mp (gather_eq_ok.mp hgather))
    exact hsentences.printable (TokenStream.wellFormed_of_ofText hstream)
  · cases h

end SqlForest
