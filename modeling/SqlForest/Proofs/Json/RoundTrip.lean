import SqlForest.Proofs.Expr
import SqlForest.Proofs.Json.Decode
import SqlForest.Proofs.Json.Reader
import SqlForest.Proofs.Json.Text

/-!
# Forests from their JSON text

What `Json.field?`, `Json.each?` and `Json.optional?` read from the values that statements are
written as is what was written there.  So an expression is read back from its value, by induction on
the expression (`Expr.ofJson?_json`), and a statement from its own (`Statement.ofJson?_json`).  The
text of a forest denotes no other value, and so it loses nothing of the forest
(`Statement.jsonText_lossless`).
-/

namespace SqlForest

/-! ## Parts -/

namespace Json

section Fields

variable {α : Type} {key key' : String} {value part : Json} {members : List (String × Json)}

theorem field?_of_get? (h : value.get? key = some part)
    (read? : (part : Json) → sizeOf part < sizeOf value → Option α) :
    value.field? key read? = read? part (sizeOf_lt_of_get? h) := by
  unfold field?
  split
  · next part' h' =>
    cases h.symm.trans h'
    rfl
  · next h' => cases h.symm.trans h'

theorem field?_of_get?_eq_none (h : value.get? key = none)
    (read? : (part : Json) → sizeOf part < sizeOf value → Option α) :
    value.field? key read? = none := by
  unfold field?
  split
  · next part' h' => cases h.symm.trans h'
  · rfl

theorem get?_head : (object ((key, part) :: members)).get? key = some part :=
  List.lookup_cons_self

theorem get?_tail (hkey : key ≠ key') :
    (object ((key', part) :: members)).get? key = (object members).get? key := by
  rw [get?, get?, List.lookup_cons, beq_false_of_ne hkey]

@[simp]
theorem field?_head
    (read? : (part' : Json) → sizeOf part' < sizeOf (object ((key, part) :: members)) → Option α) :
    field? key (object ((key, part) :: members)) read? =
      read? part (sizeOf_lt_of_get? get?_head) :=
  field?_of_get? get?_head read?

theorem sizeOf_lt_of_lt_tail (h : sizeOf value < sizeOf (object members)) :
    sizeOf value < sizeOf (object ((key', part) :: members)) := by
  simp only [object.sizeOf_spec, List.cons.sizeOf_spec] at h ⊢
  omega

@[simp]
theorem field?_tail (hkey : key ≠ key')
    (read? : (part' : Json) → sizeOf part' < sizeOf (object ((key', part) :: members)) → Option α) :
    field? key (object ((key', part) :: members)) read? =
      field? key (object members) fun part' h => read? part' (sizeOf_lt_of_lt_tail h) := by
  cases h : (object members).get? key with
  | none =>
    rw [field?_of_get?_eq_none h, field?_of_get?_eq_none]
    rw [get?_tail hkey, h]
  | some part' =>
    rw [field?_of_get? h, field?_of_get?]
    rw [get?_tail hkey, h]

end Fields

section Parts

variable {α : Type} {code : α → Json} {read? : Json → Option α}

theorem each?_eq_mapM (items : List Json) :
    ((array items).each? fun item _ => read? item) = items.mapM read? := by
  show items.attach.mapM (read? ∘ Subtype.val) = _
  rw [← List.mapM_map, List.attach_map_subtype_val]

theorem each?_map {as : List α} (h : ∀ a ∈ as, read? (code a) = some a) :
    ((array (as.map code)).each? fun item _ => read? item) = some as := by
  rw [each?_eq_mapM]
  induction as with
  | nil => rfl
  | cons a as ih =>
    rw [List.forall_mem_cons] at h
    rw [List.map_cons, List.mapM_cons, h.1, ih h.2]
    rfl

theorem optional?_optional {o : Option α} (hnull : ∀ a, code a ≠ null)
    (h : ∀ a ∈ o, read? (code a) = some a) : (Json.optional code o).optional? read? = some o := by
  cases o with
  | none => rfl
  | some a =>
    rw [Json.optional, optional?, h a rfl]
    · rfl
    · exact hnull a

end Parts

end Json

open Json (object)

/-! ## Keys of operators -/

theorem BinaryOp.ofKey?_key (op : BinaryOp) : ofKey? op.key = some op := by
  cases op <;> rfl

theorem UnaryOp.ofKey?_key (op : UnaryOp) : ofKey? op.key = some op := by
  cases op <;> rfl

/-! ## Expressions -/

theorem Expr.ofJson?_json (e : Expr) : ofJson? e.json = some e := by
  induction e using Expr.induction with
  | identifier name =>
    rw [json, ofJson?]
    rfl
  | number value =>
    rw [json, ofJson?]
    rfl
  | string body =>
    rw [json, ofJson?]
    rfl
  | call name arguments ih =>
    rw [json, ofJson?, jsons_eq_map]
    simp [Json.each?_map ih, Json.string?]
  | binary op left right hleft hright =>
    rw [json, ofJson?]
    simp [BinaryOp.ofKey?_key, hleft, hright, Json.string?]
  | unary op operand ih =>
    rw [json, ofJson?]
    simp [UnaryOp.ofKey?_key, ih, Json.string?]
  | nullCheck operand negated ih =>
    rw [json, ofJson?]
    simp [ih, Json.bool?]

theorem Expr.json_ne_null (e : Expr) : e.json ≠ .null := by
  cases e <;> rintro ⟨⟩

/-! ## Statements -/

theorem TableName.ofJson?_json (name : TableName) : ofJson? name.json = some name := by
  obtain ⟨database, table⟩ := name
  have hdatabase : (Json.optional Json.string database).optional? Json.string? = some database :=
    Json.optional?_optional nofun fun _ _ => rfl
  rw [json, ofJson?]
  simp [hdatabase, Json.string?]

theorem Statement.ofJson?_json (s : Statement) : ofJson? s.json = some s := by
  have hexprs : ∀ es : List Expr,
      ((Json.array (es.map Expr.json)).each? fun item _ => Expr.ofJson? item) = some es :=
    fun es => Json.each?_map fun e _ => e.ofJson?_json
  have hnames : ∀ names : List String,
      ((Json.array (names.map Json.string)).each? fun item _ => item.string?) = some names :=
    fun names => Json.each?_map fun _ _ => rfl
  have hexpr : ∀ o : Option Expr,
      (Json.optional Expr.json o).optional? Expr.ofJson? = some o :=
    fun o => Json.optional?_optional Expr.json_ne_null fun e _ => e.ofJson?_json
  have htable : ∀ o : Option TableName,
      (Json.optional TableName.json o).optional? TableName.ofJson? = some o :=
    fun o => Json.optional?_optional nofun fun name _ => name.ofJson?_json
  cases s with
  | use database =>
    rw [json, ofJson?]
    simp [Json.string?]
  | select query =>
    rw [json, ofJson?]
    simp [hexprs, hexpr, htable]
  | insert insertion =>
    rw [json, ofJson?]
    simp [hexprs, hnames, TableName.ofJson?_json]
  | delete deletion =>
    rw [json, ofJson?]
    simp [TableName.ofJson?_json, Expr.ofJson?_json]

/-! ## Forests -/

namespace Statement

theorem forestOfJson?_json (forest : List Statement) :
    forestOfJson? (.array (forest.map json)) = some forest :=
  Json.each?_map fun s _ => s.ofJson?_json

/-- The JSON text of a forest is a text of JSON, for every forest.  Whoever reads it by the grammar
and by the keys gets the forest back, so no two forests have the same text. -/
theorem jsonText_lossless (forest : List Statement) :
    Json.Denotes (jsonText forest).toList (.array (forest.map json)) ∧
      (∀ value, Json.Denotes (jsonText forest).toList value → forestOfJson? value = some forest) ∧
      (Json.ofText? (jsonText forest)).bind forestOfJson? = some forest ∧
      ∀ other, jsonText other = jsonText forest → other = forest := by
  have hread : ∀ forest : List Statement,
      Json.Denotes (jsonText forest).toList (.array (forest.map json)) :=
    fun forest => Json.denotes_text _
  have hforest : ∀ forest : List Statement,
      (Json.ofText? (jsonText forest)).bind forestOfJson? = some forest := by
    intro forest
    rw [Json.ofText?_eq_some_iff.mpr (hread forest), Option.bind_some, forestOfJson?_json]
  refine ⟨hread forest, ?_, hforest forest, ?_⟩
  · intro value hvalue
    rw [hvalue.unique (hread forest)]
    exact forestOfJson?_json forest
  · intro other hother
    have h := hforest other
    rw [hother, hforest forest] at h
    exact (Option.some.inj h).symm

end Statement

end SqlForest
