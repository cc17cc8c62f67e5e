import NetPool.Activity
import NetPool.Endpoint.Peers

/-! Keeping a view of the peers up to date from a mailbox, until asked to stop or until no update can
come any more. -/

namespace NetPool

structure PeerFollower where
  mailbox : Nat

namespace PeerFollower

inductive Phase
  | waiting
  | handling (u : Update)
  | stopped

structure State where
  view : PeerView
  phase : Phase := .waiting

def activity (f : PeerFollower) (s : State) : Activity State Unit :=
  let stopped := { s with phase := .stopped }
  match s.phase with
  | .waiting => .wait stopped none (.receive f.mailbox fun
    | some o => { s with phase := .handling o.update }
    | none => stopped)
  | .handling u => .work do return { view := ← s.view.handle u }
  | .stopped => .finish ()

end PeerFollower

end NetPool
