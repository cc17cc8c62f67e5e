import NetPool.Files.Tree
import NetPool.Node.Config
import NetPool.Text.Cut

/-! The identity of a node, written as the owner of its claims. -/

namespace NetPool

open Text

/-- A text that says something, without the blanks around it. -/
def meaningful? (s : String) : Option String :=
  let t := trimmed s
  if t = "" then none else some t

/-- The configured identity, else the name of the host, else the first line of the identity file that
is not blank. -/
def NodeConfig.resolveIdentity (c : NodeConfig) (hostname : Option String) (t : FileTree) :
    Except Trouble String :=
  match (c.identity.bind meaningful?).or (hostname.bind meaningful?), c.idFile with
  | some name, _ => .ok name
  | none, none => .error [.fault .identityMissing]
  | none, some path => do
    let content ← Trouble.during (.readingIdFile path) ((t.readText path).mapError ([.file ·]))
    match (lines content.toList).findSome? fun line => meaningful? (String.ofList line) with
    | some name => return name
    | none => throw [.fault .identityMissing]

end NetPool
