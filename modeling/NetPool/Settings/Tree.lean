import NetPool.Json.Basic
import NetPool.Number.Shortest

/-! Settings as a tree of tables, lists and plain values, whatever text they were read from. -/

namespace NetPool

inductive Setting
  | null
  | bool (b : Bool)
  | integer (n : Int)
  | real (x : Float)
  | text (s : String)
  | moment (spelling : String)
  | list (items : List Setting)
  | table (members : List (String × Setting))

namespace Setting

/-- How the text that settings were read from spells what they leave open. -/
structure Dialect where
  /-- A setting that says nothing. -/
  isVoid : Setting → Bool
  /-- Whether a list by position may be longer than the record. -/
  spareItems : Bool

/-- In JSON only `null` says nothing, and every item counts. -/
def json : Dialect where
  isVoid
    | .null => true
    | _ => false
  spareItems := false

/-- In TOML an empty table or list says nothing, and items past the record do not count. -/
def toml : Dialect where
  isVoid
    | .list [] => true
    | .table [] => true
    | _ => false
  spareItems := true

/-- The fields of a record in their order, each with its setting if it has one. A record is a table
by name, or a list by position. A date is a table without any of them. -/
def fields? (d : Dialect) (names : List String) : Setting → Option (List (Option Setting))
  | .table members => some (names.map fun n => (members.find? (·.1 = n)).map (·.2))
  | .list items =>
    if items.length ≤ names.length then
      some (items.map some ++ List.replicate (names.length - items.length) none)
    else if d.spareItems then some ((items.take names.length).map some)
    else none
  | .moment _ => some (names.map fun _ => none)
  | _ => none

def text? : Setting → Option String
  | .text s => some s
  | _ => none

def bool? : Setting → Option Bool
  | .bool b => some b
  | _ => none

def list? : Setting → Option (List Setting)
  | .list items => some items
  | _ => none

/-- A whole number from zero up to below `limit`. -/
def nat? (limit : Nat) : Setting → Option Nat
  | .integer (.ofNat n) => if n < limit then some n else none
  | _ => none

def real? : Setting → Option Float
  | .real x => some x
  | .integer n => some (Float.ofInt n)
  | _ => none

def needed (read : Setting → Option α) (field : Option Setting) : Option α := field.bind read

def defaulted (default : α) (read : Setting → Option α) : Option Setting → Option α
  | none => some default
  | some s => read s

/-- A field that may be left out or be `null`. -/
def optional (read : Setting → Option α) : Option Setting → Option (Option α)
  | none | some .null => some none
  | some s => (read s).map some

/-- A decimal spelling as a floating-point number, rounded to the nearest. -/
def realOf (spelling : String) : Float :=
  let (negative, body) := match spelling.toList with
    | '-' :: rest => (true, rest)
    | '+' :: rest => (false, rest)
    | s => (false, s)
  let (digits, tail) := body.span fun c => c.isDigit || c = '.'
  let (whole, rest) := digits.span (· ≠ '.')
  let places := rest.drop 1
  let exponent : Int := match tail.drop 1 with
    | '-' :: ds => -(Nat.ofDigitChars 10 ds 0 : Int)
    | '+' :: ds => Nat.ofDigitChars 10 ds 0
    | ds => Nat.ofDigitChars 10 ds 0
  let mantissa := Nat.ofDigitChars 10 (whole ++ places) 0
  let scale := exponent - places.length
  let x := if mantissa = 0 then 0.0
    else if scale + (whole.length + places.length : Nat) < -400 then 0.0
    else if 400 < scale + (whole.length + places.length : Nat) ∧ 400 < scale then 1.0 / 0.0
    else if scale < 0 then Float.ofScientific mantissa true scale.natAbs
    else Float.ofScientific mantissa false scale.natAbs
  if negative then -x else x

/-- A number as the smallest type that holds it exactly, or as a floating-point number. -/
def ofNumber (spelling : String) : Setting :=
  match spelling.toList with
  | '-' :: ds =>
    match Text.digits? ds with
    | some n => if n ≠ 0 ∧ n ≤ 0x8000000000000000 then .integer (-(n : Int)) else .real (realOf spelling)
    | none => .real (realOf spelling)
  | ds =>
    match Text.digits? ds with
    | some n => if n < UInt64.size then .integer n else .real (realOf spelling)
    | none => .real (realOf spelling)

open Json in
def ofJson : Value → Setting
  | .null => .null
  | .bool b => .bool b
  | .number s => ofNumber s
  | .text s => .text (s.getD "")
  | .list items => .list (ofItems items)
  | .record members => .table (ofMembers members)
where
  ofItems : List Value → List Setting
    | [] => []
    | v :: rest => ofJson v :: ofItems rest
  ofMembers : List (Option String × Value) → List (String × Setting)
    | [] => []
    | (name, v) :: rest => (name.getD "", ofJson v) :: ofMembers rest

def integerText (n : Int) : String :=
  (if n < 0 then "-" else "") ++ Text.numeralText n.natAbs

open Json in
def toJson : Setting → Value
  | .null => .null
  | .bool b => .bool b
  | .integer n => .number (integerText n)
  | .real x => .number (Number.json.write x)
  | .text s => .str s
  | .moment s => .str s
  | .list items => .list (toItems items)
  | .table members => .record (toMembers members)
where
  toItems : List Setting → List Value
    | [] => []
    | s :: rest => toJson s :: toItems rest
  toMembers : List (String × Setting) → List (Option String × Value)
    | [] => []
    | (name, s) :: rest => (some name, toJson s) :: toMembers rest

end Setting

end NetPool
