import RootedFS.Number.Double
import RootedFS.Text.Quoted

/-!
# Literals

Settings and configurations come as literals: nothing, truth values, whole numbers, numbers of
double precision, texts, lists, and records of named literals.

## Main definitions

* `Literal`
* `Literal.describe`: a literal as it is written, with texts in quotes
* `Literal.display`: a literal as it is shown, with a text as it stands
* `Literal.typeName`: the name of a literal's type, as reports give it
* `Literal.isEmpty`: whether a literal stands for no value
-/

namespace RootedFS

/-- The value of a setting. -/
inductive Literal where
  | none
  | bool (b : Bool)
  | int (n : Int)
  | real (x : Double)
  | text (s : String)
  | list (l : List Literal)
  | record (fields : List (String × Literal))
deriving Inhabited

namespace Literal

mutual

/-- A literal as it is written. -/
def describe : Literal → String
  | none => "None"
  | bool true => "True"
  | bool false => "False"
  | int n => toString n
  | real x => x.describe
  | text s => Text.quote s
  | list l => "[" ++ ", ".intercalate (describeAll l) ++ "]"
  | record fields => "\x7b" ++ ", ".intercalate (describeFields fields) ++ "\x7d"

/-- The literals of a list as they are written. -/
def describeAll : List Literal → List String
  | [] => []
  | a :: l => a.describe :: describeAll l

/-- The fields of a record as they are written. -/
def describeFields : List (String × Literal) → List String
  | [] => []
  | (name, a) :: l => (Text.quote name ++ ": " ++ a.describe) :: describeFields l

end

/-- A literal as it is shown: a text stands as it is. -/
def display : Literal → String
  | text s => s
  | a => a.describe

/-- The name of a literal's type, as reports give it. -/
def typeName : Literal → String
  | none => "NoneType"
  | bool _ => "bool"
  | int _ => "int"
  | real _ => "float"
  | text _ => "str"
  | list _ => "list"
  | record _ => "dict"

/-- Whether a literal stands for no value: nothing, false, zero, or an empty text, list or
record. -/
def isEmpty : Literal → Bool
  | none => true
  | bool b => !b
  | int n => n == 0
  | real x => x.isZero
  | text s => s == ""
  | list l => l.isEmpty
  | record fields => fields.isEmpty

end Literal

end RootedFS
