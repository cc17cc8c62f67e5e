import NetPool.Text.Decimal

/-! JSON values. A number keeps its spelling; the members of a record keep their order. -/

namespace NetPool.Json

/-- `text none` is a string that spells no valid text; so is the name `none` of a member. -/
inductive Value
  | null
  | bool (b : Bool)
  | number (spelling : String)
  | text (s : Option String)
  | list (items : List Value)
  | record (members : List (Option String × Value))

namespace Value

def str (s : String) : Value := .text (some s)

def nat (n : Nat) : Value := .number (Text.numeralText n)

def obj (members : List (String × Value)) : Value :=
  .record (members.map fun (name, v) => (some name, v))

def ofOption (f : α → Value) : Option α → Value
  | none => .null
  | some a => f a

def member? (name : String) : Value → Option Value
  | .record members => (members.find? fun m => m.1 = some name).map (·.2)
  | _ => none

def text? : Value → Option String
  | .text s => s
  | _ => none

def bool? : Value → Option Bool
  | .bool b => some b
  | _ => none

/-- An unsigned whole number below `limit`, spelt in digits alone. -/
def nat? (limit : Nat) : Value → Option Nat
  | .number s => (Text.digits? s.toList).filter (· < limit)
  | _ => none

def list? : Value → Option (List Value)
  | .list items => some items
  | _ => none

end Value

end NetPool.Json
