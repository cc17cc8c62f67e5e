import NetPool.Command.Grammar
import NetPool.Node.Basic
import NetPool.Settings.Load
import NetPool.Toml.Writer
import NetPool.Json.Writer

/-! What the program can be asked to do: to run a node, to check and show its configuration, and to
look into its cache. -/

namespace NetPool.Command

def grammar : Grammar where
  top := .branch [
    ("start", .leaf ["identity", "data-dir"] []),
    ("config", .branch [("validate", .leaf [] []), ("show", .leaf ["format"] [])]),
    ("cache", .branch [("list", .leaf ["pool"] ["pool"]), ("pools", .leaf [] [])])]
  globals := ["config", "log-level"]
  letters := [('c', "config")]

def usage : List String := [
  "usage: netpool [--config FILE] [--log-level LEVEL] COMMAND",
  "",
  "  start [--identity NAME] [--data-dir DIR]   run a node",
  "  config validate                            check the configuration",
  "  config show [--format toml|json]           show it with its defaults",
  "  cache list --pool POOL                     the ranges on file for a pool",
  "  cache pools                                the pools that have a file"]

inductive Task
  | start (identity dataDir : Option String)
  | validate
  | display (format : String)
  | listCache (pool : String)
  | listPools

structure Invocation where
  path : String
  logLevel : Option String
  task : Task

def Task.ofPhrase? (p : Phrase) : Option Task :=
  match p.verbs with
  | ["start"] => some (.start (p.values.lookup "identity") (p.values.lookup "data-dir"))
  | ["config", "validate"] => some .validate
  | ["config", "show"] => some (.display ((p.values.lookup "format").getD "toml"))
  | ["cache", "list"] => (p.values.lookup "pool").map .listCache
  | ["cache", "pools"] => some .listPools
  | _ => none

def Invocation.ofArgs (args : List String) : Except UsageError Invocation := do
  let p ← grammar.read args
  match Task.ofPhrase? p with
  | none => throw .missingVerb
  | some task =>
    return { path := (p.values.lookup "config").getD "config/ipshard.toml"
             logLevel := p.values.lookup "log-level", task }

inductive Outcome
  | printed (lines : List String)
  /-- The ranges on file for a pool, and whether there is a file, whose age is told too. -/
  | cached (pool path : String) (present : Bool) (ranges : List AddressRange)
  | node (n : Node)

def rangeLine (r : AddressRange) : String :=
  "  " ++ r.text ++ "  (" ++ Text.numeralText r.size.toNat ++ " addresses)"

def cacheHeading (pool modified : String) (ranges : List AddressRange) : String :=
  "pool " ++ pool ++ " (" ++ Text.numeralText ranges.length ++ " ranges, modified " ++ modified ++ ")"

/-- The text to print, given the time of the last change of a file. -/
def Outcome.lines (time : String) : Outcome → List String
  | .printed lines => lines
  | .cached pool _ present ranges =>
    cacheHeading pool (if present then time else "never") ranges :: ranges.map rangeLine
  | .node _ => []

def poolLine (p : Pool) : String :=
  "  " ++ p.name ++ " (" ++ p.kind.text ++ "): " ++ p.network.text ++ " bounds " ++ p.bounds.text ++
    " granularity " ++ Text.numeralText p.blockSize.toNat

def identityLine : Except Trouble String → String
  | .ok name => "  identity: " ++ name
  | .error [] => "  ⚠ Warning: "
  | .error (cause :: _) => "  ⚠ Warning: " ++ cause.message

def load (t : FileTree) (path : String) : Except Trouble NodeConfig :=
  Trouble.during (.loadingConfig path) (NodeConfig.ofFile t path)

/-- The commands about the configuration look first whether there is a file. -/
def loadExisting (t : FileTree) (path : String) : Except Trouble NodeConfig :=
  if t.leadsAnywhere path then load t path else throw [.configNotFound path]

def report (c : NodeConfig) (hostname : Option String) (t : FileTree) :
    Except Trouble (List String) := do
  return "✓ Config file is valid" :: (← c.buildPools).map poolLine ++
    [identityLine (c.resolveIdentity hostname t)]

/-- A configuration with all defaults filled in. -/
def rendered (format : String) (c : NodeConfig) : Except Trouble (List String) :=
  match format, c.setting with
  | "json", s => return s.toJson.prettyLines
  | "toml", .table members => return Toml.documentLines members ++ [""]
  | _, _ => throw [.unknownFormat format]

namespace Invocation

def overrides (i : Invocation) : NodeConfig.Overrides :=
  match i.task with
  | .start identity dataDir => { logLevel := i.logLevel, dataDir, identity }
  | _ => {}

def execute (i : Invocation) (hostname : Option String) (t : FileTree) : Except Trouble Outcome := do
  match i.task with
  | .start _ _ =>
    return .node (← Node.ofConfig ((← load t i.path).override i.overrides) hostname t)
  | .validate => return .printed (← report (← loadExisting t i.path) hostname t)
  | .display format => return .printed (← rendered format (← loadExisting t i.path))
  | .listCache pool =>
    let cache : RangeCache := { dataDir := (← load t i.path).dataDir }
    let ranges ← (cache.load t pool).mapError .ofFailure
    return .cached pool (cache.path pool) (cache.present t pool) ranges
  | .listPools =>
    let cache : RangeCache := { dataDir := (← load t i.path).dataDir }
    return .printed (← (cache.pools t).mapError .ofFailure)

end Invocation

end NetPool.Command
