import SqlForest.Json
import SqlForest.Statement.Json

/-!
# Statements from JSON

Statements are read back from the values that stand for them.  A form is known by the one key of an
object, and its parts are looked up by their keys, in whatever order they come.  Parts are smaller
than the value that they are taken from, and the readers of parts are told so
(`Json.field?`, `Json.each?`).
-/

namespace SqlForest

namespace Json

/-- The string that a value is. -/
def string? : Json → Option String
  | string value => some value
  | _ => none

/-- The number that a value is. -/
def number? : Json → Option Int
  | number value => some value
  | _ => none

/-- The truth value that a value is. -/
def bool? : Json → Option Bool
  | bool value => some value
  | _ => none

/-- The value of the member with the given key. -/
def get? (key : String) : Json → Option Json
  | object members => members.lookup key
  | _ => none

theorem sizeOf_lt_of_get? {key : String} {value part : Json} (h : value.get? key = some part) :
    sizeOf part < sizeOf value := by
  unfold get? at h
  split at h
  · next members =>
    obtain ⟨before, behind, rfl, -⟩ := List.lookup_eq_some_iff.mp h
    have hmem : (key, part) ∈ before ++ (key, part) :: behind :=
      List.mem_append_right _ List.mem_cons_self
    have hsize := List.sizeOf_lt_of_mem hmem
    simp only [Prod.mk.sizeOf_spec, object.sizeOf_spec] at hsize ⊢
    omega
  · cases h

theorem sizeOf_lt_of_mem {item : Json} {items : List Json} (h : item ∈ items) :
    sizeOf item < sizeOf (array items) := by
  have hsize := List.sizeOf_lt_of_mem h
  simp only [array.sizeOf_spec]
  omega

section Parts

variable {α : Type}

/-- Reads the member with the given key. -/
def field? (key : String) (value : Json)
    (read? : (part : Json) → sizeOf part < sizeOf value → Option α) : Option α :=
  match h : value.get? key with
  | some part => read? part (sizeOf_lt_of_get? h)
  | none => none

/-- Reads each item of a list. -/
def each? (value : Json) (read? : (part : Json) → sizeOf part < sizeOf value → Option α) :
    Option (List α) :=
  match value with
  | array items => items.attach.mapM fun item => read? item.1 (sizeOf_lt_of_mem item.2)
  | _ => none

/-- Reads a value that may be left out. -/
def optional? (read? : Json → Option α) : Json → Option (Option α)
  | null => some none
  | value => (read? value).map some

end Parts

end Json

open Json (object)

/-- Reads an expression. -/
def Expr.ofJson? (value : Json) : Option Expr :=
  match value with
  | object [("Identifier", content)] => content.string?.map identifier
  | object [("NumConstant", content)] => content.number?.map number
  | object [("StringConstant", content)] => content.string?.map string
  | object [("FunctionApplication", content)] => do
    let name ← content.field? "name" fun part _ => part.string?
    let arguments ← content.field? "args" fun part _ => part.each? fun item _ => ofJson? item
    some (call name arguments)
  | object [("BinOp", content)] => do
    let op ← content.field? "op" fun part _ => part.string?.bind BinaryOp.ofKey?
    let left ← content.field? "left" fun part _ => ofJson? part
    let right ← content.field? "right" fun part _ => ofJson? part
    some (binary op left right)
  | object [("UnOp", content)] => do
    let op ← content.field? "op" fun part _ => part.string?.bind UnaryOp.ofKey?
    let operand ← content.field? "operand" fun part _ => ofJson? part
    some (unary op operand)
  | object [("IsNullCheck", content)] => do
    let operand ← content.field? "operand" fun part _ => ofJson? part
    let negated ← content.field? "negated" fun part _ => part.bool?
    some (nullCheck operand negated)
  | _ => none
termination_by sizeOf value

/-- Reads the name of a table. -/
def TableName.ofJson? (value : Json) : Option TableName := do
  let database ← value.field? "database" fun part _ => part.optional? Json.string?
  let table ← value.field? "table" fun part _ => part.string?
  some ⟨database, table⟩

namespace Statement

/-- Reads a statement. -/
def ofJson? : Json → Option Statement
  | object [("Use", content)] => do
    let database ← content.field? "database_name" fun part _ => part.string?
    some (use database)
  | object [("Select", content)] => do
    let items ← content.field? "select_list" fun part _ => part.each? fun item _ =>
      Expr.ofJson? item
    let source ← content.field? "from" fun part _ => part.optional? TableName.ofJson?
    let condition ← content.field? "where_condition" fun part _ => part.optional? Expr.ofJson?
    let order ← content.field? "order_by" fun part _ => part.optional? Expr.ofJson?
    some (select ⟨items, source, condition, order⟩)
  | object [("Insert", content)] => do
    let table ← content.field? "into_table" fun part _ => TableName.ofJson? part
    let columns ← content.field? "columns" fun part _ => part.each? fun item _ => item.string?
    let values ← content.field? "values" fun part _ => part.each? fun item _ => Expr.ofJson? item
    some (insert ⟨table, columns, values⟩)
  | object [("Delete", content)] => do
    let table ← content.field? "from_table" fun part _ => TableName.ofJson? part
    let condition ← content.field? "where_condition" fun part _ => Expr.ofJson? part
    some (delete ⟨table, condition⟩)
  | _ => none

/-- Reads a forest. -/
def forestOfJson? (value : Json) : Option (List Statement) :=
  value.each? fun item _ => ofJson? item

end Statement

end SqlForest
