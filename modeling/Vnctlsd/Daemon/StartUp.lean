import Vnctlsd.Library.Endpoints

/-! What `main` leaves each of the three processes with: the descriptors it opens,
and which of them each process closes after its fork. -/
namespace Vnctlsd.Daemon
open Vnctlsd.Library.Endpoints

inductive Process where
  | monitor
  | worker
  | watcher
  deriving DecidableEq

inductive Descriptor where
  | masterLog
  | workerLog
  | watcherLog
  | trustedSock
  | rpcM
  | rpcW
  | pushM
  | pushW
  | ctlM
  | ctlW
  | watchW2
  | watchWorker
  deriving DecidableEq

/-- The other end of a socket pair. -/
def Descriptor.peer : Descriptor → Option Descriptor
  | .rpcM => some .rpcW
  | .rpcW => some .rpcM
  | .pushM => some .pushW
  | .pushW => some .pushM
  | .ctlM => some .ctlW
  | .ctlW => some .ctlM
  | .watchW2 => some .watchWorker
  | .watchWorker => some .watchW2
  | .masterLog | .workerLog | .watcherLog | .trustedSock => none

/-- Which of the three log files the configuration names. -/
structure Logs where
  master : Bool
  worker : Bool
  watcher : Bool

/-- `open_log_fd` and `close_fd`, which do nothing without a path. -/
def logFd (configured : Bool) (fd : Descriptor) : List Descriptor :=
  if configured then [fd] else []

def watcherChild (logs : Logs) : Script Process Descriptor :=
  .closes (logFd logs.master .masterLog) <|
  .closes (logFd logs.worker .workerLog) <|
  .closes [.rpcM, .rpcW] <|
  .closes [.pushM, .pushW] <|
  .closes [.watchWorker] <|
  .closes [.trustedSock] <|
  .settle .watcher

def workerChild (logs : Logs) : Script Process Descriptor :=
  .closes (logFd logs.master .masterLog) <|
  .closes (logFd logs.watcher .watcherLog) <|
  .closes [.rpcM] <|
  .closes [.pushM] <|
  .closes [.ctlM, .ctlW] <|
  .closes [.watchW2] <|
  .settle .worker

def master (logs : Logs) : Script Process Descriptor :=
  .closes [.rpcW] <|
  .closes [.pushW] <|
  .closes [.ctlW] <|
  .closes [.watchW2] <|
  .closes [.watchWorker] <|
  .closes [.trustedSock] <|
  .closes (logFd logs.worker .workerLog) <|
  .closes (logFd logs.watcher .watcherLog) <|
  .settle .monitor

def main (logs : Logs) : Script Process Descriptor :=
  .opens (logFd logs.master .masterLog) <|
  .opens (logFd logs.worker .workerLog) <|
  .opens (logFd logs.watcher .watcherLog) <|
  .opens [.trustedSock] <|
  .opens [.rpcM, .rpcW] <|
  .opens [.pushM, .pushW] <|
  .opens [.ctlM, .ctlW] <|
  .opens [.watchW2, .watchWorker] <|
  .fork (watcherChild logs) <|
  .fork (workerChild logs) <|
  master logs

def table (logs : Logs) (process : Process) : List Descriptor :=
  (((main logs).tables []).lookup process).getD []

variable (logs : Logs)

theorem table_monitor :
    table logs .monitor = logFd logs.master .masterLog ++ [.rpcM, .pushM, .ctlM] := by
  obtain ⟨master, worker, watcher⟩ := logs
  cases master <;> cases worker <;> cases watcher <;> rfl

theorem table_worker : table logs .worker =
    logFd logs.worker .workerLog ++ [.trustedSock, .rpcW, .pushW, .watchWorker] := by
  obtain ⟨master, worker, watcher⟩ := logs
  cases master <;> cases worker <;> cases watcher <;> rfl

/-- `ctl_m` is not among what the watcher closes. -/
theorem table_watcher : table logs .watcher =
    logFd logs.watcher .watcherLog ++ [.ctlM, .ctlW, .watchW2] := by
  obtain ⟨master, worker, watcher⟩ := logs
  cases master <;> cases worker <;> cases watcher <;> rfl

theorem mem_logFd {configured : Bool} {fd d : Descriptor} :
    d ∈ logFd configured fd ↔ configured = true ∧ d = fd := by
  cases configured <;> simp [logFd]

end Vnctlsd.Daemon
