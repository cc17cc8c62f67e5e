import NetPool.Settings.Tree

/-! Tables under construction. A table is opened once at most, whether by a header or by its members'
keys; a path to a table inside it opens it only in passing. -/

namespace NetPool.Toml

inductive Origin
  | header
  /-- On the path of a header. -/
  | passing
  /-- On the path of a key. -/
  | dotted
deriving DecidableEq

inductive Node
  | value (s : Setting)
  | table (origin : Origin) (members : List (String × Node))
  | tables (items : List (List (String × Node)))

abbrev Members := List (String × Node)

namespace Members

def node? (ms : Members) (key : String) : Option Node := (ms.find? (·.1 = key)).map (·.2)

def set (ms : Members) (key : String) (n : Node) : Members := ms.filter (·.1 ≠ key) ++ [(key, n)]

/-- Does something to the table at the end of a path, which is made if it is missing; of a list of
tables the last one counts. A key may not lead into a table that has a header. -/
def within (isKey : Bool) (act : Origin → Members → Option (α × Members)) (origin : Origin)
    (ms : Members) : List String → Option (α × Members)
  | [] => act origin ms
  | key :: path =>
    match ms.node? key with
    | none => do
      let made := if isKey then Origin.dotted else .passing
      let (a, sub) ← within isKey act made [] path
      return (a, ms.set key (.table made sub))
    | some (.value _) => none
    | some (.table o sub) => do
      if isKey ∧ o = .header then none
      let (a, sub) ← within isKey act o sub path
      return (a, ms.set key (.table o sub))
    | some (.tables items) => do
      let (a, last) ← within isKey act .header (← items.getLast?) path
      return (a, ms.set key (.tables (items.dropLast ++ [last])))

/-- Gives a key its value. A key of several parts may only add to tables that such keys made. -/
def insert (ms : Members) (path : List String) (key : String) (s : Setting) : Option Members := do
  let act (origin : Origin) (ms : Members) : Option (Unit × Members) :=
    if (origin = .dotted) = (path = []) ∨ (ms.node? key).isSome then none
    else some ((), ms.set key (.value s))
  return (← ms.within true act .header path).2

end Members

mutual

def Node.setting : Node → Setting
  | .value s => s
  | .table _ ms => .table (settings ms)
  | .tables items => .list (tables items)

def settings : List (String × Node) → List (String × Setting)
  | [] => []
  | (key, n) :: rest => (key, n.setting) :: settings rest

def tables : List (List (String × Node)) → List Setting
  | [] => []
  | ms :: rest => .table (settings ms) :: tables rest

end

/-- A document up to some line: its closed tables, and the open one with the place it belongs to. -/
structure Draft where
  root : Members := []
  /-- Empty for the root. -/
  place : List String := []
  /-- Whether it is an item of a list of tables. -/
  isItem : Bool := false
  members : Members := []

namespace Draft

/-- The document with the open table at its place. -/
def close (d : Draft) : Option Members :=
  match d.place.getLast? with
  | none => some d.members
  | some key => do
    let act (_ : Origin) (ms : Members) : Option (Unit × Members) :=
      match ms.node? key, d.isItem with
      | none, true => some ((), ms.set key (.tables [d.members]))
      | some (.tables items), true => some ((), ms.set key (.tables (items ++ [d.members])))
      | none, false | some (.table .passing _), false =>
        some ((), ms.set key (.table .header d.members))
      | _, _ => none
    return (← d.root.within false act .header d.place.dropLast).2

/-- Opens the table of a header; only a table on the path of an earlier header may be there. -/
def openTable (d : Draft) (place : List String) : Option Draft := do
  let root ← d.close
  let key ← place.getLast?
  let act (_ : Origin) (ms : Members) : Option (Members × Members) :=
    match ms.node? key with
    | none => some ([], ms)
    | some (.table .passing sub) => some (sub, ms)
    | _ => none
  let (members, root) ← root.within false act .header place.dropLast
  return { root, place, members }

/-- Opens a further item of a list of tables. -/
def openItem (d : Draft) (place : List String) : Option Draft := do
  let root ← d.close
  let key ← place.getLast?
  let act (_ : Origin) (ms : Members) : Option (Unit × Members) :=
    match ms.node? key with
    | none | some (.tables _) => some ((), ms)
    | _ => none
  let (_, root) ← root.within false act .header place.dropLast
  return { root, place, isItem := true }

def insert (d : Draft) (path : List String) (key : String) (s : Setting) : Option Draft := do
  return { d with members := ← d.members.insert path key s }

end Draft

end NetPool.Toml
