import Vnctlsd.Library.LockOrder

/-! The locks of the worker.  For each method that takes one: which locks it takes inside
which, and where it waits for a client, the monitor or a file while it holds them. -/
namespace Vnctlsd.Worker.Locks
open Vnctlsd.Library.LockOrder Vnctlsd.Library.Transition Vnctlsd.Library.Quiescence

/-- `log` is the lock of the log handler. -/
inductive Lock where
  | sessions
  | hubs
  | hub (n : Nat)
  | config
  | users
  | rpc
  | log
  deriving DecidableEq

/-- What a thread may have to wait for.  `client` is a session's socket, `console` the
descriptor of a hub, `push` the sockets of the push listener. -/
inductive Io where
  | client (sid : Nat)
  | console (n : Nat)
  | monitor
  | push
  | passwd
  | qemu
  | logFile
  deriving DecidableEq

abbrev Ops := List (Op Lock Io)

def log : Ops := locked .log [.io .logFile]

/-- Whether `log.debug` writes a record. -/
def logDebug (debug : Bool) : Ops := if debug then log else []

def ipcSend (debug : Bool) (chan : Io) : Ops := logDebug debug ++ [.io chan]

/-- `extra` counts the descriptors closed as unexpected, each with a warning. -/
def ipcRecv (debug : Bool) (chan : Io) (extra : Nat) : Ops :=
  [.io chan] ++ (List.replicate extra ()).flatMap (fun _ => log) ++ logDebug debug

namespace ConsoleHub

def addClient (n : Nat) : Ops := locked (.hub n) [] ++ log

def armGrace (n : Nat) : Ops := locked (.hub n) [] ++ log

def removeClient (n : Nat) (last : Bool) : Ops :=
  locked (.hub n) [] ++ log ++ if last then armGrace n else []

def teardown (n : Nat) (expired : Bool) : Ops :=
  locked (.hub n) [] ++ if expired then log else []

def writeInput (n : Nat) : Ops := [.io (.console n)]

def sendAll (sids : List Nat) : Ops := sids.flatMap fun sid => [.io (.client sid)]

/-- One round of `_reader`: the lock is held while every client is sent the data. -/
def readerRound (n : Nat) (sids dead : List Nat) : Ops :=
  [.io (.console n)] ++ locked (.hub n) (sendAll sids ++ dead.flatMap fun _ => log)

def readerExit (n : Nat) (sids : List Nat) : Ops := locked (.hub n) (sendAll sids) ++ log

def snapshot (n : Nat) : Ops := locked (.hub n) []

end ConsoleHub

namespace HubRegistry

def getOrCreate : Ops := locked .hubs []

def get : Ops := locked .hubs []

def removeIfDone : Ops := locked .hubs []

def snapshot (hubs : List Nat) : Ops := locked .hubs (hubs.flatMap ConsoleHub.snapshot)

end HubRegistry

namespace UserMapStore

def getGroups : Ops := locked .users []

def getRoleForGroups : Ops := locked .users []

def getRole : Ops := getGroups ++ getRoleForGroups

def userExists : Ops := locked .users []

def update : Ops := locked .users []

end UserMapStore

/-- `known` tells whether the user exists, `explicit` whether the console has lists. -/
def resolveAccess (known explicit : Bool) : Ops :=
  UserMapStore.userExists ++
    if known then UserMapStore.getGroups ++ if explicit then [] else UserMapStore.getRole
    else []

namespace ConsoleConfigStore

/-- `get`, `get_all_commands`, `get_default_exec`, `match_socket`, `match_console_name`
and `update` take the lock for a moment, each with nothing inside. -/
def get : Ops := locked .config []

def resolveTrustedUid (named unresolved : Bool) : Ops :=
  locked .config [] ++ (if named then [.io .passwd] else []) ++ if unresolved then log else []

end ConsoleConfigStore

namespace SessionRegistry

def add : Ops := locked .sessions []

def update : Ops := locked .sessions []

def remove : Ops := locked .sessions []

def snapshot : Ops := locked .sessions []

/-- What `kill_stale` does for one session: nothing for one at the prompt, a look at the
config for one whose console is gone, and the resolver for the others. -/
inductive Entry where
  | atPrompt
  | removed
  | judged (known explicit : Bool)
  deriving DecidableEq

def Entry.ops : Entry → Ops
  | .atPrompt => []
  | .removed => ConsoleConfigStore.get
  | .judged known explicit => ConsoleConfigStore.get ++ resolveAccess known explicit

/-- The sessions struck off are told so with the lock held. -/
def killStale (entries : List Entry) (stale : List Nat) : Ops :=
  locked .sessions (entries.flatMap Entry.ops ++ ConsoleHub.sendAll stale)

end SessionRegistry

/-- `lookup_uid`, `spawn` and `run_action`: the lock is held over the whole exchange. -/
def MonitorProxy.call (debug poisoned : Bool) (extra : Nat) : Ops :=
  locked .rpc (if poisoned then []
    else ipcSend debug .monitor ++ ipcRecv debug .monitor extra)

/-- What the threads of the worker do one after another: those of the connections, the
push listener, the hubs' readers and timers, and the thread that accepts. -/
inductive Call where
  | log
  | client (sid : Nat)
  | addClient (n : Nat)
  | armGrace (n : Nat)
  | removeClient (n : Nat) (last : Bool)
  | teardown (n : Nat) (expired : Bool)
  | writeInput (n : Nat)
  | readerRound (n : Nat) (sids dead : List Nat)
  | readerExit (n : Nat) (sids : List Nat)
  | hubSnapshot (n : Nat)
  | getOrCreate
  | getHub
  | removeIfDone
  | hubsSnapshot (hubs : List Nat)
  | userExists
  | updateUsers
  | resolveAccess (known explicit : Bool)
  | config
  | resolveTrustedUid (named unresolved : Bool)
  | connect
  | addSession
  | updateSession
  | removeSession
  | sessionsSnapshot
  | killStale (entries : List SessionRegistry.Entry) (stale : List Nat)
  | rpc (poisoned : Bool) (extra : Nat)
  | pushRecv (extra : Nat)
  | pushSend
  deriving DecidableEq

def Call.ops (debug : Bool) : Call → Ops
  | .log => Locks.log
  | .client sid => [.io (.client sid)]
  | .addClient n => ConsoleHub.addClient n
  | .armGrace n => ConsoleHub.armGrace n
  | .removeClient n last => ConsoleHub.removeClient n last
  | .teardown n expired => ConsoleHub.teardown n expired
  | .writeInput n => ConsoleHub.writeInput n
  | .readerRound n sids dead => ConsoleHub.readerRound n sids dead
  | .readerExit n sids => ConsoleHub.readerExit n sids
  | .hubSnapshot n => ConsoleHub.snapshot n
  | .getOrCreate => HubRegistry.getOrCreate
  | .getHub => HubRegistry.get
  | .removeIfDone => HubRegistry.removeIfDone
  | .hubsSnapshot hubs => HubRegistry.snapshot hubs
  | .userExists => UserMapStore.userExists
  | .updateUsers => UserMapStore.update
  | .resolveAccess known explicit => Locks.resolveAccess known explicit
  | .config => ConsoleConfigStore.get
  | .resolveTrustedUid named unresolved => ConsoleConfigStore.resolveTrustedUid named unresolved
  | .connect => [.io .qemu]
  | .addSession => SessionRegistry.add
  | .updateSession => SessionRegistry.update
  | .removeSession => SessionRegistry.remove
  | .sessionsSnapshot => SessionRegistry.snapshot
  | .killStale entries stale => SessionRegistry.killStale entries stale
  | .rpc poisoned extra => MonitorProxy.call debug poisoned extra
  | .pushRecv extra => ipcRecv debug .push extra
  | .pushSend => ipcSend debug .push

def program (debug : Bool) (calls : List Call) : Ops := calls.flatMap (Call.ops debug)

def Lock.rank : Lock → Nat
  | .sessions | .hubs | .rpc => 0
  | .hub _ | .config | .users => 1
  | .log => 2

/-- What a thread that waits for the lock may in the end be waiting for. -/
def Lock.Keeps : Lock → Io → Prop
  | .sessions, .client _ => True
  | .hubs, .client _ | .hub _, .client _ => True
  | .hubs, .logFile | .hub _, .logFile => True
  | .rpc, .monitor | .rpc, .logFile => True
  | .log, .logFile => True
  | _, _ => False

def order : Order Lock Io where
  rank := Lock.rank
  bound := 2
  rank_le := fun lock => by cases lock <;> simp [Lock.rank]
  keeps := Lock.Keeps

/-! Every method keeps to the order. -/

section
variable {held : List Lock}

theorem block_log (h : ∀ outer ∈ held, order.Above outer .log) : order.Block held log := by
  refine .locked h (.io ?_)
  rintro outer (_ | ⟨_, houter⟩)
  · trivial
  · exact (h outer houter).2 _ trivial

theorem block_logDebug (debug : Bool) (h : ∀ outer ∈ held, order.Above outer .log) :
    order.Block held (logDebug debug) := by
  cases debug with
  | true => exact block_log h
  | false => exact .nil

theorem block_ipcSend (debug : Bool) {chan : Io} (h : ∀ outer ∈ held, order.Above outer .log)
    (hchan : ∀ outer ∈ held, order.keeps outer chan) :
    order.Block held (ipcSend debug chan) := (block_logDebug debug h).append (.io hchan)

theorem block_ipcRecv (debug : Bool) {chan : Io} (extra : Nat)
    (h : ∀ outer ∈ held, order.Above outer .log)
    (hchan : ∀ outer ∈ held, order.keeps outer chan) :
    order.Block held (ipcRecv debug chan extra) :=
  ((Order.Block.io hchan).append (.flatMap fun _ _ => block_log h)).append
    (block_logDebug debug h)

theorem block_sendAll (sids : List Nat)
    (h : ∀ outer ∈ held, ∀ sid, order.keeps outer (.client sid)) :
    order.Block held (ConsoleHub.sendAll sids) :=
  .flatMap fun sid _ => .io fun outer houter => h outer houter sid

/-- A lock taken for a moment. -/
theorem block_brief {lock : Lock} (h : ∀ outer ∈ held, order.Above outer lock) :
    order.Block held (locked lock []) := .locked h .nil

theorem block_resolveAccess (known explicit : Bool)
    (h : ∀ outer ∈ held, order.Above outer .users) :
    order.Block held (resolveAccess known explicit) := by
  refine (block_brief h).append ?_
  cases known with
  | false => exact .nil
  | true =>
      refine (block_brief h).append ?_
      cases explicit with
      | true => exact .nil
      | false => exact (block_brief h).append (block_brief h)

end

theorem above_users : order.Above .sessions .users := ⟨by decide, fun _ h => h.elim⟩

theorem above_config : order.Above .sessions .config := ⟨by decide, fun _ h => h.elim⟩

theorem above_hub (n : Nat) : order.Above .hubs (.hub n) :=
  ⟨Nat.zero_lt_one, fun wait h => by cases wait <;> exact h⟩

theorem above_log_hub (n : Nat) : order.Above (.hub n) .log :=
  ⟨Nat.lt_succ_self 1, fun wait h => by cases wait <;> trivial⟩

theorem above_log_rpc : order.Above .rpc .log :=
  ⟨by decide, fun wait h => by cases wait <;> trivial⟩

theorem block_readerRound (n : Nat) (sids dead : List Nat) :
    order.Block [] (ConsoleHub.readerRound n sids dead) := by
  refine (Order.Block.io (by simp)).append (.locked (by simp) ?_)
  refine (block_sendAll sids ?_).append (.flatMap fun _ _ => block_log ?_)
  · rintro outer (_ | ⟨_, ⟨⟩⟩) sid
    trivial
  · rintro outer (_ | ⟨_, ⟨⟩⟩)
    exact above_log_hub n

theorem block_killStale (entries : List SessionRegistry.Entry) (stale : List Nat) :
    order.Block [] (SessionRegistry.killStale entries stale) := by
  refine .locked (by simp) (.append (.flatMap fun entry _ => ?_) (block_sendAll stale ?_))
  · have hconfig : ∀ outer ∈ [Lock.sessions], order.Above outer .config := by
      rintro outer (_ | ⟨_, ⟨⟩⟩)
      exact above_config
    have husers : ∀ outer ∈ [Lock.sessions], order.Above outer .users := by
      rintro outer (_ | ⟨_, ⟨⟩⟩)
      exact above_users
    cases entry with
    | atPrompt => exact .nil
    | removed => exact block_brief hconfig
    | judged known explicit =>
        exact (block_brief hconfig).append (block_resolveAccess known explicit husers)
  · rintro outer (_ | ⟨_, ⟨⟩⟩) sid
    trivial

theorem block_call (debug poisoned : Bool) (extra : Nat) :
    order.Block [] (MonitorProxy.call debug poisoned extra) := by
  have hlog : ∀ outer ∈ [Lock.rpc], order.Above outer .log := by
    rintro outer (_ | ⟨_, ⟨⟩⟩)
    exact above_log_rpc
  have hmonitor : ∀ outer ∈ [Lock.rpc], order.keeps outer .monitor := by
    rintro outer (_ | ⟨_, ⟨⟩⟩)
    trivial
  refine .locked (by simp) ?_
  cases poisoned with
  | true => exact .nil
  | false =>
      exact (block_ipcSend debug hlog hmonitor).append (block_ipcRecv debug extra hlog hmonitor)

theorem block_ops (debug : Bool) (call : Call) : order.Block [] (call.ops debug) := by
  have hnone : ∀ {p : Lock → Prop}, ∀ outer ∈ ([] : List Lock), p outer := by simp
  cases call with
  | log => exact block_log hnone
  | client | writeInput | connect => exact .io hnone
  | addClient | armGrace => exact (block_brief hnone).append (block_log hnone)
  | removeClient n last =>
      refine ((block_brief hnone).append (block_log hnone)).append ?_
      cases last with
      | true => exact (block_brief hnone).append (block_log hnone)
      | false => exact .nil
  | teardown n expired =>
      refine (block_brief hnone).append ?_
      cases expired with
      | true => exact block_log hnone
      | false => exact .nil
  | readerRound n sids dead => exact block_readerRound n sids dead
  | readerExit n sids =>
      refine Order.Block.append (.locked hnone (block_sendAll sids ?_)) (block_log hnone)
      rintro outer (_ | ⟨_, ⟨⟩⟩) sid
      trivial
  | hubsSnapshot hubs =>
      refine .locked hnone (.flatMap fun n _ => block_brief ?_)
      rintro outer (_ | ⟨_, ⟨⟩⟩)
      exact above_hub n
  | hubSnapshot | getOrCreate | getHub | removeIfDone | userExists | updateUsers | config
  | addSession | updateSession | removeSession | sessionsSnapshot => exact block_brief hnone
  | resolveAccess known explicit => exact block_resolveAccess known explicit hnone
  | resolveTrustedUid named unresolved =>
      refine ((block_brief hnone).append ?_).append ?_
      · cases named with
        | true => exact .io hnone
        | false => exact .nil
      · cases unresolved with
        | true => exact block_log hnone
        | false => exact .nil
  | killStale entries stale => exact block_killStale entries stale
  | rpc poisoned extra => exact block_call debug poisoned extra
  | pushRecv extra => exact block_ipcRecv debug extra hnone hnone
  | pushSend => exact block_ipcSend debug hnone hnone

theorem block_program (debug : Bool) (calls : List Call) : order.Block [] (program debug calls) :=
  .flatMap fun call _ => block_ops debug call

/-- The threads of the worker never wait for each other in a circle.  Left to themselves
they come to rest, and a thread that then waits for a lock is kept by one that waits for
the world: for a client that does not read, where it is one of the locks held over a
`sendall`, for the monitor, or for the log file, and never because of the config's or the
user map's lock. -/
theorem stalls_end {debug : Bool} {labels : List (Label (List Call))}
    {threads : List (Thread Lock Io)} (hrun : Run (step (program debug)) [] labels threads) :
    (∃ own finish, Run (step (program debug)) threads own finish ∧ (∀ label ∈ own, Own label) ∧
      Quiet (step (program debug)) Own finish) ∧
    ∀ own finish, Run (step (program debug)) threads own finish → (∀ label ∈ own, Own label) →
      own.length ≤ measure threads ∧ (Quiet (step (program debug)) Own finish →
        ∀ (i : Nat) thread lock rest, finish[i]? = some thread →
          thread.rest = .acquire lock :: rest →
          ∃ (j : Nat) (holder : Thread Lock Io) (wait : Io) (after : Ops),
            Relation.TransGen (Waits finish) i j ∧ finish[j]? = some holder ∧
            holder.rest = .io wait :: after ∧ lock.Keeps wait) := by
  refine ⟨lowers.exists_quiet threads, fun own finish hrest hown => ⟨?_, ?_⟩⟩
  · have hlength := lowers.length_le hrest hown
    omega
  · intro hquiet i thread lock rest hthread hnext
    exact waits_end (ordered (block_program debug) (hrun.append hrest)) hquiet hthread hnext

/-- A reader sends to a client that does not read; a `list` waits for that hub with the
registry locked, and whoever looks for any other hub waits for the registry. -/
def stalledLabels : List (Label (List Call)) :=
  [.spawn [.readerRound 0 [7] []], .spawn [.hubsSnapshot [0, 1]], .spawn [.getHub],
    .pass 0, .take 0, .take 1]

def stalled : List (Thread Lock Io) :=
  [⟨[.hub 0], [.io (.client 7), .release (.hub 0)]⟩,
    ⟨[.hubs], [.acquire (.hub 0), .release (.hub 0), .acquire (.hub 1), .release (.hub 1),
      .release .hubs]⟩,
    ⟨[], [.acquire .hubs, .release .hubs]⟩]

theorem run_stalled : Run (step (program false)) [] stalledLabels stalled :=
  run_of_exec rfl

theorem quiet_stalled : Quiet (step (program false)) Own stalled := by
  intro label hown
  cases label with
  | take i =>
      match i with
      | 0 | 1 | 2 | _ + 3 => rfl
  | spawn | pass | raise => cases hown

theorem stalls_end_list :
    ∃ (j : Nat) (holder : Thread Lock Io) (wait : Io) (after : Ops),
      Relation.TransGen (Waits stalled) 2 j ∧ stalled[j]? = some holder ∧
      holder.rest = .io wait :: after ∧ Lock.hubs.Keeps wait :=
  ((stalls_end run_stalled).2 [] stalled (.nil _)
    (fun _ h => absurd h List.not_mem_nil)).2 quiet_stalled 2 _ _ _ rfl rfl

end Vnctlsd.Worker.Locks
