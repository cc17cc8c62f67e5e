import NetPool.Json.Basic
import NetPool.Node.Config
import NetPool.Settings.Pool

/-! Node configurations read from settings, and written as JSON. -/

namespace NetPool

open Setting

def u64? : Setting → Option Nat := nat? UInt64.size

def StoreConfig.ofSetting? (d : Dialect) (s : Setting) : Option StoreConfig := do
  match ← s.fields? d ["mode", "root", "request_timeout_ms", "history_limit", "watch_retry_ms"] with
  | [mode, root, requestTimeout, historyLimit, watchRetry] =>
    let c : StoreConfig := {}
    return {
      mode := ← defaulted c.mode text? mode
      root := ← defaulted c.root text? root
      requestTimeout := ← defaulted c.requestTimeout u64? requestTimeout
      historyLimit := ← defaulted c.historyLimit u64? historyLimit
      watchRetry := ← defaulted c.watchRetry u64? watchRetry }
  | _ => none

def ReconcileConfig.ofSetting? (d : Dialect) (s : Setting) : Option ReconcileConfig := do
  match ← s.fields? d ["enabled", "interval_seconds", "jitter_fraction"] with
  | [enabled, interval, jitter] =>
    let c : ReconcileConfig := {}
    return {
      enabled := ← defaulted c.enabled bool? enabled
      interval := ← defaulted c.interval u64? interval
      jitter := ← defaulted c.jitter real? jitter }
  | _ => none

def LeaseConfig.ofSetting? (d : Dialect) (s : Setting) : Option LeaseConfig := do
  match ← s.fields? d ["ttl_seconds", "renew_retry_ms"] with
  | [ttl, renewRetry] =>
    let c : LeaseConfig := {}
    return {
      ttl := ← defaulted c.ttl u64? ttl
      renewRetry := ← defaulted c.renewRetry u64? renewRetry }
  | _ => none

def EndpointConfig.ofSetting? (d : Dialect) (s : Setting) : Option EndpointConfig := do
  match ← s.fields? d ["device", "address"] with
  | [device, address] =>
    return { device := ← needed text? device, address := ← needed text? address }
  | _ => none

def identityOf? (d : Dialect) (s : Setting) : Option (Option String × Option String) := do
  match ← s.fields? d ["identity", "id_file"] with
  | [identity, idFile] => return (← optional text? identity, ← optional text? idFile)
  | _ => none

/-- A record whose only field is a text. -/
def onlyText? (d : Dialect) (name default : String) (s : Setting) : Option String := do
  match ← s.fields? d [name] with
  | [field] => defaulted default text? field
  | _ => none

def items? (read : Setting → Option α) (s : Setting) : Option (List α) := do
  (← s.list?).mapM read

def NodeConfig.ofSetting? (d : Dialect) (s : Setting) : Option NodeConfig := do
  match ← s.fields? d ["node", "store", "cache", "reconcile", "lease", "telemetry", "pools",
      "endpoints"] with
  | [node, store, cache, reconcile, lease, telemetry, pools, endpoints] =>
    let c : NodeConfig := {}
    let (identity, idFile) ← defaulted (none, none) (identityOf? d) node
    return {
      identity, idFile
      store := ← defaulted {} (StoreConfig.ofSetting? d) store
      dataDir := ← defaulted c.dataDir (onlyText? d "data_dir" c.dataDir) cache
      reconcile := ← defaulted {} (ReconcileConfig.ofSetting? d) reconcile
      lease := ← defaulted {} (LeaseConfig.ofSetting? d) lease
      logLevel := ← defaulted c.logLevel (onlyText? d "log_level" c.logLevel) telemetry
      pools := ← defaulted [] (items? (PoolConfig.ofSetting? d)) pools
      endpoints := ← defaulted [] (items? (EndpointConfig.ofSetting? d)) endpoints }
  | _ => none

def NodeConfig.ofJson? (v : Json.Value) : Option NodeConfig :=
  NodeConfig.ofSetting? Setting.json (Setting.ofJson v)

/-! Writing. A field left open is `null`. -/

def optionalText (s : Option String) : Setting := s.elim .null .text

def number (n : Nat) : Setting := .integer n

def optionalNumber (n : Option Nat) : Setting := n.elim .null number

def PoolConfig.setting (c : PoolConfig) : Setting :=
  .table [("name", .text c.name), ("kind", .text c.kind.text), ("subnet", .text c.subnet),
    ("range_start", optionalText c.rangeStart), ("range_end", optionalText c.rangeEnd),
    ("gateway", optionalText c.gateway), ("reserved_offset", number c.reservedOffset.toNat),
    ("block_exp", optionalNumber c.blockExp), ("subnet_len", optionalNumber c.subnetLen),
    ("previous_subnet", optionalText c.previousSubnet)]

def EndpointConfig.setting (c : EndpointConfig) : Setting :=
  .table [("device", .text c.device), ("address", .text c.address)]

def NodeConfig.setting (c : NodeConfig) : Setting :=
  .table [
    ("node", .table [("identity", optionalText c.identity), ("id_file", optionalText c.idFile)]),
    ("store", .table [("mode", .text c.store.mode), ("root", .text c.store.root),
      ("request_timeout_ms", number c.store.requestTimeout),
      ("history_limit", number c.store.historyLimit),
      ("watch_retry_ms", number c.store.watchRetry)]),
    ("cache", .table [("data_dir", .text c.dataDir)]),
    ("reconcile", .table [("enabled", .bool c.reconcile.enabled),
      ("interval_seconds", number c.reconcile.interval),
      ("jitter_fraction", .real c.reconcile.jitter)]),
    ("lease", .table [("ttl_seconds", number c.lease.ttl),
      ("renew_retry_ms", number c.lease.renewRetry)]),
    ("telemetry", .table [("log_level", .text c.logLevel)]),
    ("pools", .list (c.pools.map PoolConfig.setting)),
    ("endpoints", .list (c.endpoints.map EndpointConfig.setting))]

end NetPool
