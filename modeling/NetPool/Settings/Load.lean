import NetPool.Files.Tree
import NetPool.Settings.Node
import NetPool.Toml.Reader

/-! Configurations loaded from TOML, and checked. -/

namespace NetPool.NodeConfig

def ofToml (circumstance : Circumstance) (s : String) : Except Trouble NodeConfig := do
  match (Toml.document? s).bind (NodeConfig.ofSetting? Setting.toml) with
  | none => throw [.during circumstance, .malformed]
  | some c =>
    c.validate
    return c

def ofFile (t : FileTree) (path : String) : Except Trouble NodeConfig := do
  let s ← Trouble.during (.readingConfig path) ((t.readText path).mapError ([.file ·]))
  ofToml .parsingConfigFile s

end NetPool.NodeConfig
