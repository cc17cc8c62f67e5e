import NetPool.Number.Shortest
import NetPool.Pool.Basic

/-! The configuration of a node, and what makes one invalid. -/

namespace NetPool

open Text

structure StoreConfig where
  mode : String := "embedded"
  root : String := "ipshard"
  /-- The deadline of a request, in milliseconds. -/
  requestTimeout : Nat := 5000
  /-- Writes kept so that a watch can go on from its cursor. -/
  historyLimit : Nat := 10000
  /-- Milliseconds before a failed watch is tried again. -/
  watchRetry : Nat := 1000

structure ReconcileConfig where
  /-- Whether pools are reconciled from time to time, and not at the start only. -/
  enabled : Bool := true
  /-- Seconds between two rounds. -/
  interval : Nat := 300
  jitter : Float := 0.25

structure LeaseConfig where
  /-- Seconds that a lease lasts. -/
  ttl : Nat := 24 * 60 * 60
  /-- Milliseconds before a failed renewal is tried again. -/
  renewRetry : Nat := 60000

structure EndpointConfig where
  device : String
  address : String
deriving DecidableEq

structure NodeConfig where
  identity : Option String := none
  /-- A file with the identity in its first line that is not blank. -/
  idFile : Option String := none
  store : StoreConfig := {}
  dataDir : String := "data"
  reconcile : ReconcileConfig := {}
  lease : LeaseConfig := {}
  logLevel : String := "info"
  pools : List PoolConfig := []
  endpoints : List EndpointConfig := []

inductive ConfigFault
  | storeMode (mode : String)
  | rootEmpty
  | requestTimeoutZero
  | historyLimitZero
  | intervalZero
  | jitter (x : Float)
  | ttlZero
  | renewRetryZero
  | logLevel (level : String)
  | duplicatePool (name : String)
  | subnetLengthMissing (pool : String)
  | deviceName (name : String)
  | duplicateDevice (name : String)
  | identityMissing

def logLevels : List String := ["trace", "debug", "info", "warn", "error"]

def ConfigFault.message : ConfigFault → String
  | .storeMode mode => "store.mode must be 'embedded' (the only built-in store; " ++
      "the binary runs single-node), got: " ++ mode
  | .rootEmpty => "store.root must not be empty"
  | .requestTimeoutZero => "store.request_timeout_ms must be > 0"
  | .historyLimitZero => "store.history_limit must be > 0"
  | .intervalZero => "reconcile.interval_seconds must be > 0"
  | .jitter x => "reconcile.jitter_fraction must be in [0, 1), got: " ++ Number.plain.write x
  | .ttlZero => "lease.ttl_seconds must be > 0"
  | .renewRetryZero => "lease.renew_retry_ms must be > 0"
  | .logLevel level => "telemetry.log_level must be one of [" ++
      String.intercalate ", " (logLevels.map quoted) ++ "], got: " ++ level
  | .duplicatePool name => "pools: duplicate pool name " ++ quoted name
  | .subnetLengthMissing pool => "pools." ++ pool ++ ": subnet pools require subnet_len"
  | .deviceName name =>
    "endpoints: device " ++ quoted name ++ " must be non-empty and contain no '/'"
  | .duplicateDevice name => "endpoints: duplicate device " ++ quoted name
  | .identityMissing =>
    "node identity not set: configure node.identity, HOSTNAME, or node.id_file"

inductive Circumstance
  | readingConfig (path : String)
  | parsingConfig
  | parsingConfigFile
  | loadingConfig (path : String)
  | checkingConfig
  | pool (name : String)
  | previousSubnet (pool : String)
  | endpointAddress (device : String)
  | readingIdFile (path : String)
  | leasing (pool : String)
  | registering (device : String)

def Circumstance.message : Circumstance → String
  | .readingConfig path => "failed to read config file: " ++ path
  | .parsingConfig => "failed to parse config"
  | .parsingConfigFile => "failed to parse config file"
  | .loadingConfig path => "failed to load config from " ++ quoted path
  | .checkingConfig => "invalid configuration"
  | .pool name => "pools." ++ name
  | .previousSubnet name => "pools." ++ name ++ ".previous_subnet"
  | .endpointAddress device => "endpoints." ++ device ++ ".address"
  | .readingIdFile path => "failed to read node id file: " ++ path
  | .leasing name => "failed to lease a subnet from pool " ++ name
  | .registering device => "failed to register endpoint on " ++ device

/-- One link of a chain of causes. -/
inductive Cause
  | during (c : Circumstance)
  | fault (f : ConfigFault)
  | failure (f : Failure)
  | address (e : AddressError)
  | store (e : StoreError)
  | file (f : FileFault)
  /-- A text that is no valid TOML configuration. -/
  | malformed
  | configNotFound (path : String)
  | unknownFormat (name : String)

def Cause.message : Cause → String
  | .during c => c.message
  | .fault f => f.message
  | .failure f => f.message
  | .address e => e.message
  | .store e => e.message
  | .file f => f.message
  | .malformed => "malformed TOML configuration"
  | .configNotFound path => "Config file not found: " ++ quoted path
  | .unknownFormat name => "unknown format " ++ quoted name ++ " (expected toml or json)"

/-- Why something failed: the outermost cause first. -/
abbrev Trouble := List Cause

namespace Trouble

/-- A failure, and the error of an address or of the store that it wraps. -/
def ofFailure (f : Failure) : Trouble :=
  .failure f :: match f with
    | .store e => [.store e]
    | .address e => [.address e]
    | _ => []

def during (c : Circumstance) (r : Except Trouble α) : Except Trouble α :=
  r.mapError (.during c :: ·)

end Trouble

namespace NodeConfig

def refuse (bad : Bool) (f : ConfigFault) : Except Trouble Unit :=
  if bad then .error [.fault f] else .ok ()

def pool (c : PoolConfig) : Except Trouble Pool :=
  Trouble.during (.pool c.name) ((Pool.ofConfig c).mapError .ofFailure)

def checkPool (seen : List String) (c : PoolConfig) : Except Trouble Unit := do
  refuse (seen.contains c.name) (.duplicatePool c.name)
  discard (pool c)
  refuse (c.kind = .subnet ∧ c.subnetLen = none) (.subnetLengthMissing c.name)
  match c.previousSubnet with
  | none => return
  | some s =>
    Trouble.during (.previousSubnet c.name) (discard ((Subnet.parse s).mapError ([.address ·])))

def checkEndpoint (seen : List String) (e : EndpointConfig) : Except Trouble Unit := do
  refuse (e.device = "" ∨ e.device.toList.contains '/') (.deviceName e.device)
  refuse (seen.contains e.device) (.duplicateDevice e.device)
  Trouble.during (.endpointAddress e.device)
    (discard ((Address.parse e.address).mapError ([.address ·])))

/-- Checks items in order, each knowing the names before it. -/
def checkEach (name : α → String) (check : List String → α → Except Trouble Unit)
    (seen : List String) : List α → Except Trouble Unit
  | [] => .ok ()
  | a :: rest => do
    check seen a
    checkEach name check (name a :: seen) rest

/-- The first fault, in the order of the sections. -/
def validate (c : NodeConfig) : Except Trouble Unit := do
  refuse (c.store.mode ≠ "embedded") (.storeMode c.store.mode)
  refuse (c.store.root.toList.all (· = '/')) .rootEmpty
  refuse (c.store.requestTimeout = 0) .requestTimeoutZero
  refuse (c.store.historyLimit = 0) .historyLimitZero
  refuse (c.reconcile.interval = 0) .intervalZero
  refuse (!(0.0 ≤ c.reconcile.jitter && c.reconcile.jitter < 1.0)) (.jitter c.reconcile.jitter)
  refuse (c.lease.ttl = 0) .ttlZero
  refuse (c.lease.renewRetry = 0) .renewRetryZero
  refuse (!logLevels.contains c.logLevel) (.logLevel c.logLevel)
  checkEach (·.name) checkPool [] c.pools
  checkEach (·.device) checkEndpoint [] c.endpoints

def buildPools (c : NodeConfig) : Except Trouble (List Pool) := c.pools.mapM pool

def leaseTtl (c : NodeConfig) : Nat := c.lease.ttl * 1000

def reconcileInterval (c : NodeConfig) : Nat := c.reconcile.interval * 1000

structure Overrides where
  logLevel : Option String := none
  dataDir : Option String := none
  identity : Option String := none

def override (c : NodeConfig) (o : Overrides) : NodeConfig :=
  { c with
    logLevel := o.logLevel.getD c.logLevel
    dataDir := o.dataDir.getD c.dataDir
    identity := o.identity.or c.identity }

end NodeConfig

end NetPool
