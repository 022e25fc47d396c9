import DocStore.Value.Basic
import DocStore.Double.Shortest
import DocStore.Text.Base64
import DocStore.Number.Integer

/-!
# Values as literals of a statement

The form in which a value stands in the text of a statement.  Only a quote inside a
string is escaped.
-/

namespace DocStore.Value

/-- A string between quotes. -/
def quoted (s : String) : String :=
  String.ofList ('\'' :: s.toList.flatMap (fun c => if c == '\'' then ['\\', '\''] else [c])
    ++ ['\''])

mutual

/-- The literal of a value. -/
def literal : Value → String
  | null => "null"
  | boolean true => "true"
  | boolean false => "false"
  | integer n => Number.intText n.toInt
  | double d => d.text
  | timestamp t => "timestamp('" ++ t.text ++ "')"
  | string s => quoted s
  | bytes b => "bytes('" ++ Text.Base64.encode b ++ "')"
  | reference path => "ref('" ++ path ++ "')"
  | array items => "[" ++ String.intercalate ", " (itemLiterals items) ++ "]"
  | map fields => "\x7b" ++ String.intercalate ", " (fieldLiterals fields) ++ "\x7d"
  | increment operand => "increment(" ++ operand.literal ++ ")"
  | deleteField => "delete()"

def itemLiterals : List Value → List String
  | [] => []
  | v :: rest => v.literal :: itemLiterals rest

def fieldLiterals : Fields → List String
  | [] => []
  | (k, v) :: rest => (k ++ ": " ++ v.literal) :: fieldLiterals rest

end

end DocStore.Value
