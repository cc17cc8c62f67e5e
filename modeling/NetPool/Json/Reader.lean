import NetPool.Json.Basic
import NetPool.Json.Token

/-! Reading a JSON value. The reader keeps the open lists and records on a stack of its own, so
their depth does not matter. -/

namespace NetPool.Json

/-- An open list or record: what it holds so far, last first, and the name that awaits a value. -/
inductive Frame
  | items (before : List Value)
  | members (before : List (Option String × Value)) (name : Option String)

mutual

/-- A value has to come. -/
def valueFrom (stack : List Frame) : List Token → Option Value
  | .null :: rest => valueEnded .null stack rest
  | .bool b :: rest => valueEnded (.bool b) stack rest
  | .number n :: rest => valueEnded (.number n) stack rest
  | .text s :: rest => valueEnded (.text s) stack rest
  | .openList :: .closeList :: rest => valueEnded (.list []) stack rest
  | .openList :: rest => valueFrom (.items [] :: stack) rest
  | .openRecord :: .closeRecord :: rest => valueEnded (.record []) stack rest
  | .openRecord :: .text name :: .colon :: rest => valueFrom (.members [] name :: stack) rest
  | _ => none

/-- A value has just ended. -/
def valueEnded (v : Value) (stack : List Frame) : List Token → Option Value
  | [] => match stack with
    | [] => some v
    | _ => none
  | .closeList :: rest => match stack with
    | .items before :: stack => valueEnded (.list (v :: before).reverse) stack rest
    | _ => none
  | .closeRecord :: rest => match stack with
    | .members before name :: stack =>
      valueEnded (.record ((name, v) :: before).reverse) stack rest
    | _ => none
  | .comma :: rest => match stack with
    | .items before :: stack => valueFrom (.items (v :: before) :: stack) rest
    | .members before name :: stack => match rest with
      | .text next :: .colon :: rest =>
        valueFrom (.members ((name, v) :: before) next :: stack) rest
      | _ => none
    | [] => none
  | _ => none

end

/-- The value of a whole text; blanks may stand around it. -/
def Value.ofBytes? (s : Bytes) : Option Value := (Token.ofBytes? s).bind (valueFrom [])

end NetPool.Json
