/-!
# JSON values

Values of the interchange format, and their written form with one item a row and
two blanks of indentation a level. Characters are written as they are, apart
from quotes, backslashes and control characters.
-/

namespace ImportAtlas.Json

inductive Value where
  | null
  | bool (value : Bool)
  | integer (value : Int)
  /-- A number that is not written as an integer, by its digits. -/
  | decimal (numeral : String)
  | string (text : String)
  | array (items : List Value)
  /-- Members in the order given. -/
  | object (members : List (String × Value))

namespace Value

/-- A natural number. -/
def nat (value : Nat) : Value := .integer value

/-- A value that may be absent. -/
def optional {α : Type} (write : α → Value) : Option α → Value
  | some value => write value
  | none => .null

/-- A member that is left out if its value is absent. -/
def member? {α : Type} (name : String) (write : α → Value) (value : Option α) :
    List (String × Value) :=
  (value.map fun value => (name, write value)).toList

/-- A list of texts. -/
def strings (texts : List String) : Value := .array (texts.map .string)

end Value

/-- The written form of a character inside quotes. -/
def quotedChar (char : Char) : List Char :=
  match char with
  | '"' => ['\\', '"']
  | '\\' => ['\\', '\\']
  | '\x08' => ['\\', 'b']
  | '\t' => ['\\', 't']
  | '\n' => ['\\', 'n']
  | '\x0c' => ['\\', 'f']
  | '\r' => ['\\', 'r']
  | _ =>
    if char.toNat < 0x20 then
      ['\\', 'u', '0', '0', Nat.digitChar (char.toNat / 16), Nat.digitChar (char.toNat % 16)]
    else [char]

/-- A text between quotes. -/
def quoted (text : String) : String :=
  String.ofList ('"' :: (text.toList.flatMap quotedChar ++ ['"']))

/-- The blanks in front of a row. -/
def padding (level : Nat) : String :=
  String.ofList (List.replicate (2 * level) ' ')

mutual

/-- The written form of a value that starts at the given level of nesting. -/
def render (level : Nat) : Value → String
  | .null => "null"
  | .bool value => if value then "true" else "false"
  | .integer value => toString value
  | .decimal numeral => numeral
  | .string text => quoted text
  | .array [] => "[]"
  | .array items => "[\n" ++ renderItems (level + 1) items ++ "\n" ++ padding level ++ "]"
  | .object [] => "\x7b\x7d"
  | .object members =>
    "\x7b\n" ++ renderMembers (level + 1) members ++ "\n" ++ padding level ++ "\x7d"

/-- The rows of the items of an array. -/
def renderItems (level : Nat) : List Value → String
  | [] => ""
  | item :: rest =>
    padding level ++ render level item
      ++ (if rest.isEmpty then "" else ",\n") ++ renderItems level rest

/-- The rows of the members of an object. -/
def renderMembers (level : Nat) : List (String × Value) → String
  | [] => ""
  | (name, value) :: rest =>
    padding level ++ quoted name ++ ": " ++ render level value
      ++ (if rest.isEmpty then "" else ",\n") ++ renderMembers level rest

end

/-- The written form of a document. -/
def Value.text (value : Value) : String := render 0 value

end ImportAtlas.Json
