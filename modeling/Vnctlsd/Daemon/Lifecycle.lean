import Vnctlsd.Daemon.StartUp
import Vnctlsd.Library.Quiescence

/-! How the three processes learn of each other's end: each ends by itself once it
reads end of file on one of its sockets. -/
namespace Vnctlsd.Daemon.Lifecycle
open Vnctlsd.Library.Endpoints Vnctlsd.Library.Transition Vnctlsd.Library.Quiescence

/-- `waiting` is the loop of `waitpid` behind `run_monitor`. -/
inductive MonitorPc where
  | serving
  | waiting (left : List Process)
  | gone
  deriving DecidableEq

/-- `listening` while the push listener's thread runs. -/
inductive WorkerPc where
  | serving (listening : Bool)
  | gone
  deriving DecidableEq

/-- `listening` while the thread on `ctl_sock` runs, `stop` is its event. -/
inductive WatcherPc where
  | watching (listening stop : Bool)
  | gone
  deriving DecidableEq

/-- `forked` counts the monitor's children between `fork` and `exec`, which have its
descriptors. -/
structure World where
  monitor : MonitorPc
  worker : WorkerPc
  watcher : WatcherPc
  forked : Nat
  deriving DecidableEq

def World.start : World := ⟨.serving, .serving true, .watching true false, 0⟩

def World.gone (world : World) : Process → Bool
  | .monitor => world.monitor = .gone
  | .worker => world.worker = .gone
  | .watcher => world.watcher = .gone

/-- The tables of all processes that have descriptors of the daemon open. -/
def World.tables (logs : Logs) (world : World) : List (List Descriptor) :=
  ([Process.monitor, .worker, .watcher].filter fun process => !world.gone process).map
    (table logs) ++ List.replicate world.forked (table logs .monitor)

/-- `kill` ends a process from outside, or by an exception that nothing catches.
`monitorReturns` is an error of `select` or `ipc_recv`. -/
inductive Event where
  | kill (process : Process)
  | monitorEof (active : Descriptor)
  | monitorReturns
  | waitpid
  | fork
  | exec
  | workerEof (sock : Descriptor)
  | listenerFails
  | acceptFails
  | ctlEof
  | ctlFails
  | watcherExits
  deriving DecidableEq

/-- End of file on either socket of the push listener ends the whole worker, an
exception anywhere else in it its thread only.  `waitpid` returns, or finds the child
reaped, once the child is gone. -/
def step (logs : Logs) (world : World) : Event → Option World
  | .kill .monitor =>
      if world.monitor = .gone then none else some { world with monitor := .gone }
  | .kill .worker => if world.worker = .gone then none else some { world with worker := .gone }
  | .kill .watcher =>
      if world.watcher = .gone then none else some { world with watcher := .gone }
  | .monitorEof active =>
      if world.monitor = .serving ∧ active ∈ [.rpcM, .pushM, .ctlM] ∧
          eof Descriptor.peer (world.tables logs) active then
        some { world with monitor := .waiting [.worker, .watcher] }
      else none
  | .monitorReturns =>
      if world.monitor = .serving then
        some { world with monitor := .waiting [.worker, .watcher] }
      else none
  | .waitpid =>
      match world.monitor with
      | .waiting (pid :: left) =>
          if world.gone pid then some { world with monitor := .waiting left } else none
      | .waiting [] => some { world with monitor := .gone }
      | _ => none
  | .fork =>
      if world.monitor = .serving then some { world with forked := world.forked + 1 } else none
  | .exec =>
      match world.forked with
      | 0 => none
      | forked + 1 => some { world with forked }
  | .workerEof sock =>
      if world.worker = .serving true ∧ sock ∈ [.pushW, .watchWorker] ∧
          eof Descriptor.peer (world.tables logs) sock then
        some { world with worker := .gone }
      else none
  | .listenerFails =>
      if world.worker = .serving true then some { world with worker := .serving false } else none
  | .acceptFails => if world.worker = .gone then none else some { world with worker := .gone }
  | .ctlEof =>
      match world.watcher with
      | .watching true _ =>
          if eof Descriptor.peer (world.tables logs) .ctlW then
            some { world with watcher := .watching false true }
          else none
      | _ => none
  | .ctlFails =>
      match world.watcher with
      | .watching true stop => some { world with watcher := .watching false stop }
      | _ => none
  | .watcherExits =>
      match world.watcher with
      | .watching _ true => some { world with watcher := .gone }
      | _ => none

/-- What the processes do on their own once they can. -/
def Own : Event → Prop
  | .monitorEof _ | .waitpid | .exec | .workerEof _ | .ctlEof | .watcherExits => True
  | .kill _ | .monitorReturns | .fork | .listenerFails | .acceptFails | .ctlFails => False

variable {logs : Logs}

/-- An end reads end of file once everybody who has its peer is gone. -/
theorem eof_of_gone {world : World} {e other : Descriptor} (hpeer : e.peer = some other)
    (hforked : world.forked = 0)
    (hgone : ∀ process, other ∈ table logs process → world.gone process = true) :
    eof Descriptor.peer (world.tables logs) e = true := by
  refine (eof_iff hpeer).mpr ?_
  simp only [World.tables, hforked, List.replicate_zero, List.append_nil, List.mem_map,
    List.mem_filter, Bool.not_eq_true', forall_exists_index, and_imp]
  rintro _ process - hlives rfl hother
  rw [hgone process hother] at hlives
  cases hlives

theorem mem_tables {world : World} {process : Process} (hlives : world.gone process = false) :
    table logs process ∈ world.tables logs := by
  refine List.mem_append_left _ (List.mem_map_of_mem (List.mem_filter.mpr ⟨?_, ?_⟩))
  · cases process <;> simp
  · rw [hlives]
    rfl

/-- The watcher keeps the monitor's end of the channel on which it waits for the
monitor to go. -/
theorem no_eof_on_ctlW {world : World} (hlives : world.gone .watcher = false) :
    eof Descriptor.peer (world.tables logs) .ctlW = false := by
  refine eof_eq_false_of_mem rfl (mem_tables hlives) ?_
  rw [table_watcher]
  exact List.mem_append_right _ (List.mem_cons_self ..)

/-! What a run tells of each process. -/

inductive WatcherRecord (events : List Event) : WatcherPc → Prop where
  | watching (listening : Bool) :
      .kill .watcher ∉ events → WatcherRecord events (.watching listening false)
  | gone : .kill .watcher ∈ events → WatcherRecord events .gone

inductive WorkerRecord (events : List Event) : WorkerPc → Prop where
  | serving (listening : Bool) : (.listenerFails ∈ events ↔ listening = false) →
      .kill .worker ∉ events → .acceptFails ∉ events → WorkerRecord events (.serving listening)
  | gone : (.listenerFails ∈ events → .kill .worker ∈ events ∨ .acceptFails ∈ events) →
      WorkerRecord events .gone

inductive MonitorRecord : MonitorPc → Prop where
  | serving : MonitorRecord .serving
  | waiting {left : List Process} :
      .monitor ∉ left → left.length ≤ 2 → MonitorRecord (.waiting left)
  | gone : MonitorRecord .gone

structure Recorded (events : List Event) (world : World) : Prop where
  monitor : MonitorRecord world.monitor
  worker : WorkerRecord events world.worker
  watcher : WatcherRecord events world.watcher

variable {events : List Event} {event : Event}

theorem mem_snoc_iff {other : Event} (hne : other ≠ event) :
    other ∈ events ++ [event] ↔ other ∈ events := by
  rw [List.mem_append, List.mem_singleton, or_iff_left hne]

theorem WatcherRecord.snoc {pc : WatcherPc} (h : WatcherRecord events pc)
    (hkill : .kill .watcher ≠ event) : WatcherRecord (events ++ [event]) pc := by
  cases h with
  | watching listening hkept => exact .watching listening (mt (mem_snoc_iff hkill).mp hkept)
  | gone hkilled => exact .gone ((mem_snoc_iff hkill).mpr hkilled)

theorem WorkerRecord.snoc {pc : WorkerPc} (h : WorkerRecord events pc)
    (hlistener : .listenerFails ≠ event) (hkill : .kill .worker ≠ event)
    (haccept : .acceptFails ≠ event) : WorkerRecord (events ++ [event]) pc := by
  cases h with
  | serving listening hlistens hkept haccepts =>
      exact .serving listening ((mem_snoc_iff hlistener).trans hlistens)
        (mt (mem_snoc_iff hkill).mp hkept) (mt (mem_snoc_iff haccept).mp haccepts)
  | gone hended =>
      refine .gone fun hfailed => ?_
      rw [mem_snoc_iff hkill, mem_snoc_iff haccept]
      exact hended ((mem_snoc_iff hlistener).mp hfailed)

theorem recorded_step {world next : World} (h : Recorded events world)
    (hstep : step logs world event = some next) : Recorded (events ++ [event]) next := by
  obtain ⟨hmonitor, hworker, hwatcher⟩ := h
  have hlast : event ∈ events ++ [event] := List.mem_append_right _ (List.mem_singleton_self _)
  cases event with
  | kill process =>
      cases process with
      | monitor =>
          obtain ⟨-, ⟨⟩⟩ := Option.ite_none_left_eq_some.mp hstep
          exact ⟨.gone, hworker.snoc nofun nofun nofun, hwatcher.snoc nofun⟩
      | worker =>
          obtain ⟨-, ⟨⟩⟩ := Option.ite_none_left_eq_some.mp hstep
          exact ⟨hmonitor, .gone fun _ => .inl hlast, hwatcher.snoc nofun⟩
      | watcher =>
          obtain ⟨-, ⟨⟩⟩ := Option.ite_none_left_eq_some.mp hstep
          exact ⟨hmonitor, hworker.snoc nofun nofun nofun, .gone hlast⟩
  | monitorEof active =>
      obtain ⟨-, ⟨⟩⟩ := Option.ite_none_right_eq_some.mp hstep
      exact ⟨.waiting (by decide) (by decide), hworker.snoc nofun nofun nofun, hwatcher.snoc nofun⟩
  | monitorReturns =>
      obtain ⟨-, ⟨⟩⟩ := Option.ite_none_right_eq_some.mp hstep
      exact ⟨.waiting (by decide) (by decide), hworker.snoc nofun nofun nofun, hwatcher.snoc nofun⟩
  | waitpid =>
      refine ⟨?_, ?_, ?_⟩
      all_goals
        simp only [step] at hstep
        split at hstep
      · rename_i hpc
        obtain ⟨-, ⟨⟩⟩ := Option.ite_none_right_eq_some.mp hstep
        rw [hpc] at hmonitor
        cases hmonitor with
        | waiting hleft hlength =>
            exact .waiting (fun h => hleft (List.mem_cons_of_mem _ h))
              (Nat.le_of_succ_le hlength)
      · cases hstep
        exact .gone
      · cases hstep
      · obtain ⟨-, ⟨⟩⟩ := Option.ite_none_right_eq_some.mp hstep
        exact hworker.snoc nofun nofun nofun
      · cases hstep
        exact hworker.snoc nofun nofun nofun
      · cases hstep
      · obtain ⟨-, ⟨⟩⟩ := Option.ite_none_right_eq_some.mp hstep
        exact hwatcher.snoc nofun
      · cases hstep
        exact hwatcher.snoc nofun
      · cases hstep
  | fork =>
      obtain ⟨-, ⟨⟩⟩ := Option.ite_none_right_eq_some.mp hstep
      exact ⟨hmonitor, hworker.snoc nofun nofun nofun, hwatcher.snoc nofun⟩
  | exec =>
      simp only [step] at hstep
      split at hstep <;> cases hstep
      exact ⟨hmonitor, hworker.snoc nofun nofun nofun, hwatcher.snoc nofun⟩
  | workerEof sock =>
      obtain ⟨⟨hpc, -, -⟩, ⟨⟩⟩ := Option.ite_none_right_eq_some.mp hstep
      rw [hpc] at hworker
      cases hworker with
      | serving _ hlistens =>
          refine ⟨hmonitor, .gone fun hfailed => ?_, hwatcher.snoc nofun⟩
          cases hlistens.mp ((mem_snoc_iff (by nofun)).mp hfailed)
  | listenerFails =>
      obtain ⟨hpc, ⟨⟩⟩ := Option.ite_none_right_eq_some.mp hstep
      rw [hpc] at hworker
      cases hworker with
      | serving _ _ hkept haccepts =>
          exact ⟨hmonitor, .serving false (iff_of_true hlast rfl)
            (mt (mem_snoc_iff (by nofun)).mp hkept) (mt (mem_snoc_iff (by nofun)).mp haccepts),
            hwatcher.snoc nofun⟩
  | acceptFails =>
      obtain ⟨-, ⟨⟩⟩ := Option.ite_none_left_eq_some.mp hstep
      exact ⟨hmonitor, .gone fun _ => .inr hlast, hwatcher.snoc nofun⟩
  | ctlEof =>
      simp only [step] at hstep
      split at hstep
      · rename_i hpc
        obtain ⟨heof, -⟩ := Option.ite_none_right_eq_some.mp hstep
        rw [no_eof_on_ctlW (by simp [World.gone, hpc])] at heof
        cases heof
      · cases hstep
  | ctlFails =>
      simp only [step] at hstep
      split at hstep <;> cases hstep
      rename_i hpc
      rw [hpc] at hwatcher
      cases hwatcher with
      | watching _ hkept =>
          exact ⟨hmonitor, hworker.snoc nofun nofun nofun,
            .watching false (mt (mem_snoc_iff (by nofun)).mp hkept)⟩
  | watcherExits =>
      simp only [step] at hstep
      split at hstep <;> cases hstep
      rename_i hpc
      rw [hpc] at hwatcher
      cases hwatcher

theorem recorded {world : World} (hrun : Run (step logs) .start events world) :
    Recorded events world :=
  (hrun.guarded (fun _ _ => trivial)).history
    (fun _ _ _ _ hpast _ hstep => recorded_step hpast hstep)
    ⟨.serving, .serving true (by simp) List.not_mem_nil List.not_mem_nil,
      .watching true List.not_mem_nil⟩

/-! Left to themselves the processes come to rest. -/

def MonitorPc.measure : MonitorPc → Nat
  | .serving => 4
  | .waiting left => left.length + 1
  | .gone => 0

def WorkerPc.measure : WorkerPc → Nat
  | .serving _ => 1
  | .gone => 0

def WatcherPc.measure : WatcherPc → Nat
  | .watching true _ => 2
  | .watching false _ => 1
  | .gone => 0

def World.measure (world : World) : Nat :=
  world.monitor.measure + world.worker.measure + world.watcher.measure + world.forked

theorem lowers : Lowers (step logs) Own World.measure := by
  intro world event next hown hstep
  cases event with
  | monitorEof active =>
      obtain ⟨⟨hpc, -⟩, ⟨⟩⟩ := Option.ite_none_right_eq_some.mp hstep
      simp [World.measure, hpc, MonitorPc.measure]
  | waitpid =>
      simp only [step] at hstep
      split at hstep
      · rename_i hpc
        obtain ⟨-, ⟨⟩⟩ := Option.ite_none_right_eq_some.mp hstep
        simp [World.measure, hpc, MonitorPc.measure]
      · rename_i hpc
        cases hstep
        simp [World.measure, hpc, MonitorPc.measure]
      · cases hstep
  | exec =>
      simp only [step] at hstep
      split at hstep <;> cases hstep
      rename_i hforked
      simp only [World.measure, hforked]
      omega
  | workerEof sock =>
      obtain ⟨⟨hpc, -⟩, ⟨⟩⟩ := Option.ite_none_right_eq_some.mp hstep
      simp [World.measure, hpc, WorkerPc.measure]
  | ctlEof =>
      simp only [step] at hstep
      split at hstep
      · rename_i hpc
        obtain ⟨-, ⟨⟩⟩ := Option.ite_none_right_eq_some.mp hstep
        simp [World.measure, hpc, WatcherPc.measure]
      · cases hstep
  | watcherExits =>
      simp only [step] at hstep
      split at hstep <;> cases hstep
      rename_i listening hpc
      cases listening <;> simp [World.measure, hpc, WatcherPc.measure]
  | kill | monitorReturns | fork | listenerFails | acceptFails | ctlFails => cases hown

theorem MonitorRecord.measure_le {pc : MonitorPc} (h : MonitorRecord pc) : pc.measure ≤ 4 := by
  cases h with
  | serving => exact Nat.le_refl 4
  | waiting _ hlength => exact Nat.le_succ_of_le (Nat.succ_le_succ hlength)
  | gone => exact Nat.zero_le 4

theorem WorkerPc.measure_le (pc : WorkerPc) : pc.measure ≤ 1 := by
  cases pc with
  | serving _ => exact Nat.le_refl 1
  | gone => exact Nat.zero_le 1

theorem WatcherPc.measure_le (pc : WatcherPc) : pc.measure ≤ 2 := by
  rcases pc with ⟨_ | _, _⟩ | _ <;> simp [WatcherPc.measure]

/-! At rest. -/

variable {world : World}

theorem forked_of_quiet (hquiet : Quiet (step logs) Own world) : world.forked = 0 := by
  have hexec : step logs world .exec = none := hquiet .exec trivial
  simp only [step] at hexec
  split at hexec
  · assumption
  · cases hexec

/-- A worker that still listens leaves once the watcher is gone. -/
theorem not_listening_of_quiet (hquiet : Quiet (step logs) Own world)
    (hwatcher : world.watcher = .gone) : world.worker ≠ .serving true := by
  intro hworker
  have heof : eof Descriptor.peer (world.tables logs) .watchWorker = true := by
    refine eof_of_gone rfl (forked_of_quiet hquiet) fun process hmem => ?_
    cases process with
    | monitor => simp [table_monitor, mem_logFd] at hmem
    | worker => simp [table_worker, mem_logFd] at hmem
    | watcher => exact decide_eq_true hwatcher
  have hstays : step logs world (.workerEof .watchWorker) = none := hquiet _ trivial
  rw [step, if_pos ⟨hworker, by decide, heof⟩] at hstays
  cases hstays

theorem not_serving_of_quiet (hquiet : Quiet (step logs) Own world)
    (hwatcher : world.watcher = .gone) : world.monitor ≠ .serving := by
  intro hmonitor
  have heof : eof Descriptor.peer (world.tables logs) .ctlM = true := by
    refine eof_of_gone rfl (forked_of_quiet hquiet) fun process hmem => ?_
    cases process with
    | monitor => simp [table_monitor, mem_logFd] at hmem
    | worker => simp [table_worker, mem_logFd] at hmem
    | watcher => exact decide_eq_true hwatcher
  have hstays : step logs world (.monitorEof .ctlM) = none := hquiet _ trivial
  rw [step, if_pos ⟨hmonitor, by decide, heof⟩] at hstays
  cases hstays

/-- The loop of `waitpid` is left once both children are gone. -/
theorem not_waiting_of_quiet (hquiet : Quiet (step logs) Own world)
    (hworker : world.worker = .gone) (hwatcher : world.watcher = .gone) {left : List Process}
    (hleft : .monitor ∉ left) : world.monitor ≠ .waiting left := by
  intro hmonitor
  have hwaits : step logs world .waitpid = none := hquiet _ trivial
  cases left with
  | nil =>
      simp only [step, hmonitor] at hwaits
      cases hwaits
  | cons pid left =>
      have hgone : world.gone pid = true := by
        cases pid with
        | monitor => exact absurd (List.mem_cons_self ..) hleft
        | worker => exact decide_eq_true hworker
        | watcher => exact decide_eq_true hwatcher
      simp only [step, hmonitor, hgone, if_true] at hwaits
      cases hwaits

theorem gone_iff_of_quiet (hrecorded : Recorded events world)
    (hquiet : Quiet (step logs) Own world) :
    (∀ process, world.gone process = true) ↔ .kill .watcher ∈ events ∧
      (.listenerFails ∈ events → .kill .worker ∈ events ∨ .acceptFails ∈ events) := by
  obtain ⟨hmonitor, hworker, hwatcher⟩ := hrecorded
  constructor
  · intro hgone
    rw [show world.worker = .gone from of_decide_eq_true (hgone .worker)] at hworker
    rw [show world.watcher = .gone from of_decide_eq_true (hgone .watcher)] at hwatcher
    cases hworker with
    | gone hended =>
        cases hwatcher with
        | gone hkilled => exact ⟨hkilled, hended⟩
  · rintro ⟨hkilled, hended⟩
    have hwatcherGone : world.watcher = .gone := by
      cases hpc : world.watcher with
      | gone => rfl
      | watching listening stop =>
          rw [hpc] at hwatcher
          cases hwatcher with
          | watching _ hkept => exact absurd hkilled hkept
    have hworkerGone : world.worker = .gone := by
      cases hpc : world.worker with
      | gone => rfl
      | serving listening =>
          rw [hpc] at hworker
          cases hworker with
          | serving _ hlistens hkept haccepts =>
              cases listening with
              | true => exact absurd hpc (not_listening_of_quiet hquiet hwatcherGone)
              | false => exact ((hended (hlistens.mpr rfl)).elim hkept haccepts).elim
    have hmonitorGone : world.monitor = .gone := by
      cases hpc : world.monitor with
      | gone => rfl
      | serving => exact absurd hpc (not_serving_of_quiet hquiet hwatcherGone)
      | waiting left =>
          rw [hpc] at hmonitor
          cases hmonitor with
          | waiting hleft _ =>
              exact absurd hpc (not_waiting_of_quiet hquiet hworkerGone hwatcherGone hleft)
    intro process
    cases process with
    | monitor => exact decide_eq_true hmonitorGone
    | worker => exact decide_eq_true hworkerGone
    | watcher => exact decide_eq_true hwatcherGone

theorem mem_append_own {own : List Event} (hown : ∀ label ∈ own, Own label) (event : Event)
    (hother : ¬ Own event) : event ∈ events ++ own ↔ event ∈ events := by
  rw [List.mem_append, or_iff_left fun h => hother (hown _ h)]

/-- Whatever has happened to the daemon, left to themselves its processes come to
rest, and then all three are gone exactly where somebody has ended the watcher, and a
worker whose push listener had failed.  The end of the monitor or of the worker alone
leaves the watcher, and the end of the worker alone a monitor that waits for it. -/
theorem comes_down_iff (hrun : Run (step logs) .start events world) :
    (∃ own finish, Run (step logs) world own finish ∧ (∀ event ∈ own, Own event) ∧
      Quiet (step logs) Own finish) ∧
    ∀ own finish, Run (step logs) world own finish → (∀ event ∈ own, Own event) →
      own.length ≤ 7 + world.forked ∧ (Quiet (step logs) Own finish →
        ((∀ process, finish.gone process = true) ↔ .kill .watcher ∈ events ∧
          (.listenerFails ∈ events → .kill .worker ∈ events ∨ .acceptFails ∈ events))) := by
  refine ⟨lowers.exists_quiet world, fun own finish hrest hown => ⟨?_, fun hquiet => ?_⟩⟩
  · have hlength := lowers.length_le hrest hown
    have hmonitor := (recorded hrun).monitor.measure_le
    have hworker := world.worker.measure_le
    have hwatcher := world.watcher.measure_le
    simp only [World.measure] at hlength
    omega
  · rw [gone_iff_of_quiet (recorded (hrun.append hrest)) hquiet,
      mem_append_own hown (.kill .watcher) id, mem_append_own hown .listenerFails id,
      mem_append_own hown (.kill .worker) id, mem_append_own hown .acceptFails id]

theorem comes_down_iff_killed :
    (∃ finish, Quiet (step ⟨true, true, true⟩) Own finish ∧
      ∀ process, finish.gone process = true) ∧
    ∃ finish, Quiet (step ⟨true, true, true⟩) Own finish ∧
      ¬ ∀ process, finish.gone process = true := by
  have hwatcher : Run (step ⟨true, true, true⟩) .start [.kill .watcher]
      ⟨.serving, .serving true, .gone, 0⟩ := run_of_exec rfl
  have hworker : Run (step ⟨true, true, true⟩) .start [.kill .worker]
      ⟨.serving, .gone, .watching true false, 0⟩ := run_of_exec rfl
  constructor
  · obtain ⟨⟨own, finish, hrest, hown, hquiet⟩, hall⟩ := comes_down_iff hwatcher
    exact ⟨finish, hquiet, ((hall own finish hrest hown).2 hquiet).mpr (by decide)⟩
  · obtain ⟨⟨own, finish, hrest, hown, hquiet⟩, hall⟩ := comes_down_iff hworker
    exact ⟨finish, hquiet, mt ((hall own finish hrest hown).2 hquiet).mp (by decide)⟩

end Vnctlsd.Daemon.Lifecycle
