/-! The health of a node's components. -/

namespace NetPool

inductive Condition
  | starting
  | healthy
  | disabled
  | failed
  | stopped
deriving DecidableEq

namespace Condition

def text : Condition → String
  | .starting => "starting"
  | .healthy => "healthy"
  | .disabled => "disabled"
  | .failed => "failed"
  | .stopped => "stopped"

def parse? : String → Option Condition
  | "starting" => some .starting
  | "healthy" => some .healthy
  | "disabled" => some .disabled
  | "failed" => some .failed
  | "stopped" => some .stopped
  | _ => none

/-- A component that is not configured does not hold a node up. -/
def usable : Condition → Bool
  | .healthy | .disabled => true
  | _ => false

/-- What stopping makes of a condition: a failure stays one. -/
def afterStop : Condition → Condition
  | .failed => .failed
  | _ => .stopped

end Condition

structure Health where
  store : Condition := .starting
  reconciler : Condition := .starting
  leases : Condition := .starting
  endpoints : Condition := .starting
deriving DecidableEq

namespace Health

def ready (h : Health) : Bool :=
  h.store == .healthy && h.reconciler.usable && h.leases.usable && h.endpoints.usable

def alive (h : Health) : Bool :=
  !([h.store, h.reconciler, h.leases, h.endpoints].contains .failed)

def stopped (h : Health) : Health where
  store := h.store.afterStop
  reconciler := h.reconciler.afterStop
  leases := h.leases.afterStop
  endpoints := h.endpoints.afterStop

end Health

end NetPool
