import SqlForest.Text.Integer

/-!
# JSON

JSON values whose numbers are integers, and their text in the layout that gives each member of a
list or an object a line of its own.
-/

namespace SqlForest

/-- A JSON value.  The members of an object keep their order. -/
inductive Json
  | null
  | bool (value : Bool)
  | number (value : Int)
  | string (value : String)
  | array (items : List Json)
  | object (members : List (String × Json))
deriving Repr

namespace Json

/-! ## Strings -/

/-- A hexadecimal digit in lower case. -/
def hexDigit (n : Nat) : Char :=
  Nat.digitChar (n % 16)

/-- A character as it is written in a string.  Only the quote, the backslash and the control
characters below the blank are escaped. -/
def escapeChar (c : Char) : List Char :=
  match c with
  | '"' => ['\\', '"']
  | '\\' => ['\\', '\\']
  | '\x08' => ['\\', 'b']
  | '\x0c' => ['\\', 'f']
  | '\n' => ['\\', 'n']
  | '\r' => ['\\', 'r']
  | '\t' => ['\\', 't']
  | c =>
    if c.toNat < 32 then ['\\', 'u', '0', '0', hexDigit (c.toNat / 16), hexDigit c.toNat]
    else [c]

/-- A string between quotes. -/
def quote (text : String) : String :=
  "\"" ++ String.ofList (text.toList.flatMap escapeChar) ++ "\""

example : quote "/\x7f\x1f\n" = "\"/\x7f\\u001f\\n\"" := by decide

/-! ## Layout -/

/-- The blanks in front of a line that is nested `level` levels deep. -/
def indent (level : Nat) : String :=
  String.ofList (List.replicate (2 * level) ' ')

/-- Lines between two brackets, separated by commas; nothing stands between them if there are no
lines. -/
def enclose (level : Nat) (opening : String) (lines : List String) (closing : String) : String :=
  if lines.isEmpty then opening ++ closing
  else opening ++ "\n" ++ ",\n".intercalate lines ++ "\n" ++ indent level ++ closing

mutual

/-- The text of a value that is nested `level` levels deep. -/
def textAt (level : Nat) : Json → String
  | null => "null"
  | bool true => "true"
  | bool false => "false"
  | number value => Integer.text value
  | string value => quote value
  | array items => enclose level "[" (itemLines (level + 1) items) "]"
  | object members => enclose level "\x7b" (memberLines (level + 1) members) "\x7d"

/-- The lines of the items of a list. -/
def itemLines (level : Nat) : List Json → List String
  | [] => []
  | item :: items => (indent level ++ textAt level item) :: itemLines level items

/-- The lines of the members of an object. -/
def memberLines (level : Nat) : List (String × Json) → List String
  | [] => []
  | (key, value) :: members =>
    (indent level ++ quote key ++ ": " ++ textAt level value) :: memberLines level members

end

/-- The text of a value. -/
def text (value : Json) : String :=
  textAt 0 value

end Json

end SqlForest
