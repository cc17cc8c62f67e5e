import NetPool.Toml.Scalar
import NetPool.Toml.Table

/-! Reading a TOML document. -/

namespace NetPool.Toml

open Scan

def splitKey (path : List String) : Scan (List String × String) := do
  match path.getLast? with
  | some last => return (path.dropLast, last)
  | none => failure

def pair (value : Scan Setting) : Scan (List String × String × Setting) := do
  let (path, name) ← splitKey (← key)
  exactly "="
  gap
  let s ← value
  gap
  return (path, name, s)

def listItem (value : Scan Setting) : Scan Setting := do
  wideGap
  let s ← value
  wideGap
  return s

def list (value : Scan Setting) : Scan Setting := do
  exactly "["
  let items ← maybe do
    let first ← listItem value
    let rest ← many do exactly ","; listItem value
    discard (maybe (exactly ","))
    return first :: rest
  wideGap
  exactly "]"
  return .list (items.getD [])

def inlineTable (value : Scan Setting) : Scan Setting := do
  exactly "\x7b"
  let pairs ← maybe do
    let first ← pair value
    let rest ← many do exactly ","; pair value
    return first :: rest
  gap
  exactly "\x7d"
  let add (ms : Members) : List String × String × Setting → Option Members
    | (path, name, s) => ms.insert path name s
  match (pairs.getD []).foldlM add [] with
  | some ms => return .table (settings ms)
  | none => failure

/-- A value with lists and tables in it up to some depth. -/
def value : Nat → Scan Setting
  | 0 => scalar
  | depth + 1 => scalar <|> list (value depth) <|> inlineTable (value depth)

inductive Line
  | blank
  | pair (path : List String) (key : String) (s : Setting)
  | table (place : List String)
  | item (place : List String)

def line : Scan Line := do
  match ← peek with
  | some '#' => lineEnd; return .blank
  | some '\n' | some '\x0d' => newline; return .blank
  | some '[' =>
    let isItem := (← maybe (exactly "[[")).isSome
    if !isItem then exactly "["
    let place ← key
    exactly (if isItem then "]]" else "]")
    lineEnd
    return if isItem then .item place else .table place
  | _ =>
    let (path, name, s) ← pair (value (nestingLimit - 1))
    lineEnd
    return .pair path name s

def lineOrEnd : Scan (Option Line) := do
  gap
  if (← get) = [] then return none else some <$> line

def lines : Scan (List Line) := do
  discard (maybe (exactly "\ufeff"))
  repeated lineOrEnd

def Draft.add (d : Draft) : Line → Option Draft
  | .blank => some d
  | .pair path key s => d.insert path key s
  | .table place => d.openTable place
  | .item place => d.openItem place

def document? (s : String) : Option Setting := do
  let (found, _) ← lines.run s.toList
  let d ← found.foldlM Draft.add ({} : Draft)
  return .table (settings (← d.close))

end NetPool.Toml
