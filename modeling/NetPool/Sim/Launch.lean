import NetPool.Command.Invocation
import NetPool.Sim.Run
import NetPool.Text.Cut

/-! One node alone with a store of its own, and commands that may start one. -/

namespace NetPool.Sim

/-- A world with a node that runs in it, and the number of its process. -/
def World.ofNode (n : Node) (t : FileTree) : Nat × World :=
  let w : World := { servers := [{ store := .empty n.config.store.historyLimit }], files := t }
  let (signal, w) := w.newSignal
  let (failures, w) := w.newFailures
  let access : Access := {
    deadline := some n.config.store.requestTimeout, faulty := false, cache := n.cache, signal
    failures := some failures }
  w.spawn access (.node { node := n, purpose := .run })

def World.verdict? (w : World) (process : Nat) : Option Verdict :=
  match (w.process? process).bind (·.outcome?) with
  | some (.node _ verdict) => some verdict
  | _ => none

/-- Runs a node for `span` milliseconds at most: how it ended, if it did, and the files it leaves. -/
def launch (n : Node) (t : FileTree) (span : Nat) : Option Verdict × FileTree :=
  let (process, w) := World.ofNode n t
  let w := w.runAhead process span
  (w.verdict? process, w.files)

/-- What became of a command: without a verdict its node still runs. -/
structure Attendance where
  outcome : Option Command.Outcome := none
  verdict : Option (Except Trouble Unit)
  files : FileTree

/-- Runs a command, and the node that it starts for `span` milliseconds at most. -/
def attend (i : Command.Invocation) (hostname : Option String) (t : FileTree) (span : Nat) :
    Attendance :=
  match i.execute hostname t with
  | .error e => { verdict := some (.error e), files := t }
  | .ok (.node n) =>
    let (verdict, t) := launch n t span
    { verdict := verdict.map fun v => v.map fun _ => (), files := t }
  | .ok o => { outcome := some o, verdict := some (.ok ()), files := t }

def Attendance.printed (a : Attendance) (time : String) : List String :=
  match a.outcome with
  | none => []
  | some o => (Text.lines ((o.lines time).flatMap fun l => l.toList ++ ['\n'])).map String.ofList

end NetPool.Sim
