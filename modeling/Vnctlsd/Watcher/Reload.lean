import Mathlib.Data.List.Induction
import Vnctlsd.Library.Dict
import Vnctlsd.Library.Transition
import Vnctlsd.Watcher.Announce

/-! The watcher's two threads.  The main one starts a watch, then reads inotify
events; the other starts a new watch for every RELOAD_WATCH.  Files come and go
between any two of their steps. -/
namespace Vnctlsd.Watcher.Reload
open Vnctlsd.Library Vnctlsd.Library.Transition Vnctlsd.Python ConsoleConfigStore Validation

def inCreate : Nat := 0x00000100
def inDelete : Nat := 0x00000200
def inMovedFrom : Nat := 0x00000040
def inMovedTo : Nat := 0x00000080

/-- An entry of a directory, by the directory itself and not by a path to it. -/
structure File where
  dir : String
  name : String
  deriving DecidableEq

/-- The directory and the entry that a path leads to, and the room in a queue.  File
names are those of `os.listdir`; `decode` is what `errors='replace'` makes of one. -/
structure Host where
  directory : String → String
  locate : String → File
  decode : String → String
  maxQueuedEvents : Nat

structure Notice where
  mask : Nat
  name : String
  deriving DecidableEq

/-- An inotify instance with its one watch. -/
structure Watch where
  dir : String
  queue : List Notice

/-- An event that finds the queue full is lost. -/
def Watch.hear (limit : Nat) (file : File) (mask : Nat) (watch : Watch) : Watch :=
  if watch.dir = file.dir ∧ watch.queue.length < limit then
    { watch with queue := watch.queue ++ [⟨mask, file.name⟩] }
  else watch

inductive Thread where
  | main
  | ctl
  deriving DecidableEq

/-- Where a thread stands: in its loop, at a statement of `start_watch`, or about to
send on the watch socket.  An instance that is not yet in `inotify_fd` is its own. -/
inductive Task where
  | idle
  | closing (dir : PyVal)
  | naming (dir : PyVal)
  | checking (dir : PyVal)
  | adding (dir : String)
  | publishing (dir : String) (watch : Watch)
  | listing (dir : String)
  | scanning (dir : String) (names : List String)
  | announcing (path : String) (msg : PyVal) (after : Task)
  | retracting (path : String)
  | ended

/-- On the watch socket. -/
inductive Message where
  | appeared (path : String) (msg : PyVal)
  | disappeared (path : String)

/-- On the ctl socket. -/
inductive Report where
  | dirError (error : String)
  | ready (dir : String)

structure World where
  files : Dict File Stat
  inotify : Option Watch
  watchDir : PyVal
  cfg : PyVal
  main : Task
  hand : List Notice
  ctl : Task
  inbox : List PyVal
  sent : List Message
  told : List Report

/-- What the system answers to the calls of one step. -/
structure Answers where
  ok : Bool
  found : Except String Stat
  names : List String
  passwd : Passwd

def World.task (world : World) : Thread → Task
  | .main => world.main
  | .ctl => world.ctl

def World.setTask (world : World) (task : Task) : Thread → World
  | .main => { world with main := task }
  | .ctl => { world with ctl := task }

/-- An exception in the main thread ends the process, in the other only the thread. -/
def World.fail (world : World) : Thread → World
  | .main => { world with inotify := none, main := .ended, hand := [], ctl := .ended }
  | .ctl => { world with ctl := .ended }

def World.lstat (host : Host) (world : World) : FileSystem := fun path =>
  match world.files.get? (host.locate path) with
  | some st => .ok st
  | none => .error "[Errno 2] No such file or directory"

/-- `os.path.join`. -/
def joinPath (dir : PyVal) (fname : String) : Py String :=
  match dir with
  | .str dir => .ok (
      if fname.toList.head? = some '/' then fname
      else if dir = "" ∨ dir.toList.getLast? = some '/' then dir ++ fname
      else dir ++ "/" ++ fname)
  | other => raise .typeError
      s!"expected str, bytes or os.PathLike object, not {other.typeName}"

def isSocketName (fname : String) : Bool := ".sock".toList.isSuffixOf fname.toList

/-- The path that an event about a file of this name is taken for. -/
def pathOf (host : Host) (watchDir : PyVal) (name : String) : Py (Option String) :=
  if name = "" ∨ !isSocketName (host.decode name) then .ok none
  else (joinPath watchDir (host.decode name)).map some

def Notice.appears (notice : Notice) : Bool := notice.mask &&& (inCreate ||| inMovedTo) != 0
def Notice.disappears (notice : Notice) : Bool := notice.mask &&& (inDelete ||| inMovedFrom) != 0

/-- `_handle_appeared`, up to the sending: what it has seen may change before that. -/
def appear (rt : Runtime) (host : Host) (world : World) (passwd : Passwd) (path : String)
    (after : Task) : Py Task := do
  match ← handleAppeared rt passwd (world.lstat host) world.cfg (.str path) with
  | none => pure after
  | some msg => pure (.announcing path msg after)

/-- One round of the event loop. -/
def look (rt : Runtime) (host : Host) (world : World) (passwd : Passwd) (notice : Notice) :
    Py Task := do
  match ← pathOf host world.watchDir notice.name with
  | none => pure .idle
  | some path =>
      if notice.appears then appear rt host world passwd path .idle
      else if notice.disappears then pure (.retracting path)
      else pure .idle

/-- An `OSError` ends the scan of a directory. -/
def onOSError (fallback : Task) (result : Py Task) : Py Task :=
  match result with
  | .error e => if e.kind = .osError then .ok fallback else .error e
  | .ok task => .ok task

/-- The statement at which a thread stands. -/
def work (rt : Runtime) (host : Host) (world : World) (thread : Thread) (answers : Answers) :
    Task → Py World
  | .closing dir => pure { world.setTask (.naming dir) thread with inotify := none }
  | .naming dir => pure { world.setTask (.checking dir) thread with watchDir := dir }
  | .checking dir => do
      match ← checkDirPermissions rt (fun _ => answers.found) dir, dir with
      | some error, _ => pure { world.setTask .idle thread with
          told := if answers.ok then world.told ++ [.dirError error] else world.told }
      | none, .str dir => pure (world.setTask (.adding dir) thread)
      | none, other => other.noAttribute "encode"
  | .adding dir =>
      if answers.ok then
        pure (world.setTask (.publishing dir ⟨host.directory dir, []⟩) thread)
      else pure (world.setTask .idle thread)
  | .publishing dir watch =>
      pure { world.setTask (.listing dir) thread with inotify := some watch }
  | .listing dir => pure (world.setTask (.scanning dir answers.names) thread)
  | .scanning dir (name :: rest) => do
      if isSocketName name then
        let task ← onOSError (.scanning dir []) do
          appear rt host world answers.passwd (← joinPath (.str dir) name) (.scanning dir rest)
        pure (world.setTask task thread)
      else pure (world.setTask (.scanning dir rest) thread)
  | .scanning dir [] => pure { world.setTask .idle thread with
      told := if answers.ok then world.told ++ [.ready dir] else world.told }
  | .announcing path msg after => pure { world.setTask after thread with
      sent := if answers.ok then world.sent ++ [.appeared path msg] else world.sent }
  | .retracting path => pure { world.setTask .idle thread with
      sent := if answers.ok then world.sent ++ [.disappeared path] else world.sent }
  | .idle | .ended => pure world

/-- What the ctl listener does with a message. -/
def reload (rt : Runtime) (world : World) (msg : PyVal) : Py World := do
  if (← msg.get "type" .none).eqStr "RELOAD_WATCH" then
    let raw ← msg.get "console_config" .none
    let cfg ← (if raw.truthy then update rt raw else pure world.cfg)
    let dir ← msg.get "watch_dir" world.watchDir
    pure { world with cfg, ctl := .closing dir }
  else pure world

def Task.hear (limit : Nat) (file : File) (mask : Nat) : Task → Task
  | .publishing dir watch => .publishing dir (watch.hear limit file mask)
  | task => task

def World.hear (host : Host) (world : World) (file : File) (mask : Nat) : World := { world with
  inotify := world.inotify.map (Watch.hear host.maxQueuedEvents file mask)
  main := world.main.hear host.maxQueuedEvents file mask
  ctl := world.ctl.hear host.maxQueuedEvents file mask }

/-- `create` and `delete` are of any process, by a rename where `moved` is set; `push` is
the monitor's; the main thread takes `count` events from the kernel and looks at one. -/
inductive Event where
  | create (file : File) (st : Stat) (moved : Bool)
  | delete (file : File) (moved : Bool)
  | push (msg : PyVal)
  | receive
  | read (count : Nat)
  | next (passwd : Passwd)
  | act (thread : Thread) (answers : Answers)

def step (rt : Runtime) (host : Host) (world : World) : Event → Option World
  | .create file st moved =>
      if moved = false ∧ (world.files.get? file).isSome then none
      else some { world.hear host file (if moved then inMovedTo else inCreate) with
        files := world.files.set file st }
  | .delete file moved =>
      if (world.files.get? file).isNone then none
      else some { world.hear host file (if moved then inMovedFrom else inDelete) with
        files := world.files.erase file }
  | .push msg => some { world with inbox := world.inbox ++ [msg] }
  | .receive =>
      match world.ctl, world.inbox with
      | .idle, msg :: rest =>
          match reload rt { world with inbox := rest } msg with
          | .error _ => some { world with inbox := rest, ctl := .ended }
          | .ok next => some next
      | _, _ => none
  | .read count =>
      match world.main, world.hand, world.inotify with
      | .idle, [], some watch => some { world with
          hand := watch.queue.take count
          inotify := some { watch with queue := watch.queue.drop count } }
      | _, _, _ => none
  | .next passwd =>
      match world.main, world.hand with
      | .idle, notice :: rest =>
          match look rt host world passwd notice with
          | .error _ => some (world.fail .main)
          | .ok task => some { world with main := task, hand := rest }
      | _, _ => none
  | .act thread answers =>
      match world.task thread with
      | .idle | .ended => none
      | task =>
          match work rt host world thread answers task with
          | .error _ => some (world.fail thread)
          | .ok next => some next

/-- How `run_watcher` begins: the main thread enters `start_watch`. -/
def World.start (files : Dict File Stat) (watchDir cfg : PyVal) : World where
  files
  inotify := none
  watchDir
  cfg
  main := .closing watchDir
  hand := []
  ctl := .idle
  inbox := []
  sent := []
  told := []

def Message.tells (path : String) (before : Bool) : Message → Bool
  | .appeared other _ => other = path || before
  | .disappeared other => other != path && before

/-- The last message about the path, if there is one, is that it has appeared. -/
def announced (sent : List Message) (path : String) : Bool :=
  sent.foldl (Message.tells path) false

def Present (host : Host) (world : World) (path : String) : Prop :=
  (world.files.get? (host.locate path)).isSome = true

/-- A SOCKET_DISAPPEARED comes after the last SOCKET_APPEARED. -/
def Retracted (sent : List Message) (path : String) : Prop :=
  ∃ before after, sent = before ++ .disappeared path :: after ∧
    ∀ msg, Message.appeared path msg ∉ after

def Task.queued : Task → List Notice
  | .publishing _ watch => watch.queue
  | _ => []

/-- The events that do not wait in the queue of `inotify_fd`. -/
def World.kept (world : World) : List Notice :=
  world.hand ++ world.main.queued ++ world.ctl.queued

/-- The events the main thread has still to look at. -/
def World.unread (world : World) : List Notice :=
  world.kept ++ world.inotify.elim [] Watch.queue

/-- Every message and every event is dealt with. -/
structure Quiet (world : World) : Prop where
  main : world.main = .idle ∨ world.main = .ended
  ctl : world.ctl = .idle ∨ world.ctl = .ended
  inbox : world.inbox = []
  unread : world.unread = []

/-- The loop will report the path as gone when it looks at the event. -/
def Reports (host : Host) (watchDir : PyVal) (notice : Notice) (path : String) : Prop :=
  notice.appears = false ∧ notice.disappears = true ∧
    pathOf host watchDir notice.name = .ok (some path)

/-- The disappearance is about to be sent, or one of these events reports it. -/
def Coming (host : Host) (world : World) (notices : List Notice) (watchDir : PyVal)
    (path : String) : Prop :=
  world.main = .retracting path ∨ ∃ notice ∈ notices, Reports host watchDir notice path

def OnTheWay (host : Host) (world : World) (path : String) : Prop :=
  Coming host world world.unread world.watchDir path

/-- The path was announced last, and is gone. -/
def Owed (host : Host) (world : World) (path : String) : Prop :=
  announced world.sent path = true ∧ ¬ Present host world path

def World.Opened (world : World) (watch : Watch) : Prop :=
  world.inotify = some watch ∨ ∃ thread dir, world.task thread = .publishing dir watch

/-- A watch with room in its queue is on the directory, and the event will name the
path. -/
def Heard (host : Host) (world : World) (file : File) (path : String) : Prop :=
  (∃ watch, world.Opened watch ∧ watch.dir = file.dir ∧
    watch.queue.length < host.maxQueuedEvents) ∧
  pathOf host world.watchDir file.name = .ok (some path)

/-- Closing the queue, taking another directory, announcing late, a failed send and an
exception in the main thread are what can lose a disappearance. -/
def WorkLosesNothing (rt : Runtime) (host : Host) (world : World) (thread : Thread)
    (answers : Answers) : Task → Prop
  | .closing _ | .publishing .. =>
      ∀ path, Owed host world path → Coming host world world.kept world.watchDir path
  | .naming dir => ∀ path, Owed host world path → Coming host world world.unread dir path
  | .announcing path _ _ => answers.ok = true →
      Present host world path ∨ OnTheWay host world path
  | .retracting path => answers.ok = true ∨ ¬ Owed host world path
  | task => thread = .main →
      (∃ next, work rt host world .main answers task = .ok next) ∨ ∀ path, ¬ Owed host world path

def LosesNothing (rt : Runtime) (host : Host) (world : World) : Event → Prop
  | .delete file _ => ∀ path, announced world.sent path = true → host.locate path = file →
      OnTheWay host world path ∨ Heard host world file path
  | .next passwd => ∀ notice rest, world.hand = notice :: rest →
      (∃ task, look rt host world passwd notice = .ok task) ∨ ∀ path, ¬ Owed host world path
  | .act thread answers => WorkLosesNothing rt host world thread answers (world.task thread)
  | .create .. | .push _ | .receive | .read _ => True

/-- Of every announced path that is gone the disappearance is on the way. -/
def Covered (host : Host) (world : World) : Prop :=
  ∀ path, Owed host world path → OnTheWay host world path

@[simp] theorem announced_append (sent : List Message) (message : Message) (path : String) :
    announced (sent ++ [message]) path = message.tells path (announced sent path) := by
  simp [announced]

/-- What is no longer announced has been taken back. -/
theorem retracted_of_not_announced {sent : List Message} {path : String} {msg : PyVal}
    (hsent : .appeared path msg ∈ sent) (h : announced sent path = false) :
    Retracted sent path := by
  induction sent using List.reverseRecOn with
  | nil => cases hsent
  | append_singleton sent message ih =>
      rw [announced_append] at h
      have hearlier : ∀ {last : Message}, (∀ msg, last ≠ .appeared path msg) →
          Message.appeared path msg ∈ sent → announced sent path = false →
          Retracted (sent ++ [last]) path := by
        intro last hlast hmem hannounced
        obtain ⟨before, after, rfl, hafter⟩ := ih hmem hannounced
        refine ⟨before, after ++ [last], by simp, fun other hother => ?_⟩
        rcases List.mem_append.mp hother with hold | hnew
        · exact hafter other hold
        · exact hlast other (List.mem_singleton.mp hnew).symm
      cases message with
      | appeared other otherMsg =>
          simp only [Message.tells, Bool.or_eq_false_iff, decide_eq_false_iff_not] at h
          have hmem : Message.appeared path msg ∈ sent := by
            simpa [Ne.symm h.1] using hsent
          exact hearlier (fun _ heq => h.1 (Message.appeared.inj heq).1) hmem h.2
      | disappeared other =>
          by_cases hother : other = path
          · subst hother
            exact ⟨sent, [], rfl, fun _ hmem => by cases hmem⟩
          · simp only [Message.tells, bne_iff_ne.mpr hother, Bool.true_and] at h
            exact hearlier (fun _ heq => by cases heq) (by simpa using hsent) h

section

variable {rt : Runtime} {host : Host} {world next : World}

@[simp] theorem setTask_hand (task : Task) (thread : Thread) :
    (world.setTask task thread).hand = world.hand := by cases thread <;> rfl

@[simp] theorem setTask_inotify (task : Task) (thread : Thread) :
    (world.setTask task thread).inotify = world.inotify := by cases thread <;> rfl

@[simp] theorem setTask_watchDir (task : Task) (thread : Thread) :
    (world.setTask task thread).watchDir = world.watchDir := by cases thread <;> rfl

@[simp] theorem setTask_sent (task : Task) (thread : Thread) :
    (world.setTask task thread).sent = world.sent := by cases thread <;> rfl

@[simp] theorem setTask_files (task : Task) (thread : Thread) :
    (world.setTask task thread).files = world.files := by cases thread <;> rfl

/-- Only the thread that is about to send a disappearance leaves that task. -/
theorem setTask_retracting {task after : Task} {thread : Thread} {path : String}
    (htask : world.task thread = task) (hother : task ≠ .retracting path)
    (h : world.main = .retracting path) :
    (world.setTask after thread).main = .retracting path := by
  cases thread with
  | main => exact absurd (htask.symm.trans h) hother
  | ctl => exact h

theorem Coming.mono {notices notices' : List Notice} {dir : PyVal} {path : String}
    (h : Coming host world notices dir path)
    (hmain : world.main = .retracting path → next.main = .retracting path)
    (hnotices : notices ⊆ notices') : Coming host next notices' dir path := by
  rcases h with hsending | ⟨notice, hnotice, hreports⟩
  · exact .inl (hmain hsending)
  · exact .inr ⟨notice, hnotices hnotice, hreports⟩

theorem hear_queue (limit : Nat) (file : File) (mask : Nat) (watch : Watch) :
    watch.queue ⊆ (watch.hear limit file mask).queue := by
  unfold Watch.hear
  split
  · exact List.subset_append_left ..
  · exact List.Subset.refl _

theorem hear_queued (limit : Nat) (file : File) (mask : Nat) (task : Task) :
    task.queued ⊆ (task.hear limit file mask).queued := by
  cases task with
  | publishing dir watch => exact hear_queue limit file mask watch
  | _ => exact List.Subset.refl _

theorem hear_unread (file : File) (mask : Nat) :
    world.unread ⊆ (world.hear host file mask).unread := by
  have hshared : world.inotify.elim [] Watch.queue ⊆
      (world.hear host file mask).inotify.elim [] Watch.queue := by
    show _ ⊆ (world.inotify.map _).elim [] Watch.queue
    cases world.inotify with
    | none => exact List.Subset.refl _
    | some watch => exact hear_queue _ file mask watch
  intro notice h
  simp only [World.unread, World.kept, List.mem_append] at h ⊢
  rcases h with ((hhand | hmain) | hctl) | hqueue
  · exact .inl (.inl (.inl hhand))
  · exact .inl (.inl (.inr (hear_queued _ file mask _ hmain)))
  · exact .inl (.inr (hear_queued _ file mask _ hctl))
  · exact .inr (hshared hqueue)

theorem heard_unread {file : File} {mask : Nat} {watch : Watch} (hopened : world.Opened watch)
    (hdir : watch.dir = file.dir) (hroom : watch.queue.length < host.maxQueuedEvents) :
    ⟨mask, file.name⟩ ∈ (world.hear host file mask).unread := by
  have hheard : ⟨mask, file.name⟩ ∈ (watch.hear host.maxQueuedEvents file mask).queue := by
    rw [Watch.hear, if_pos ⟨hdir, hroom⟩]
    exact List.mem_append_right _ (List.mem_singleton_self _)
  simp only [World.unread, World.kept, List.mem_append, World.hear]
  rcases hopened with hshared | ⟨_ | _, dir, htask⟩
  · rw [hshared]
    exact .inr hheard
  · rw [show world.main = .publishing dir watch from htask]
    exact .inl (.inl (.inr hheard))
  · rw [show world.ctl = .publishing dir watch from htask]
    exact .inl (.inr hheard)

theorem OnTheWay.hear {file : File} {mask : Nat} {path : String} (h : OnTheWay host world path) :
    OnTheWay host (world.hear host file mask) path := by
  refine Coming.mono h (fun hmain => ?_) (hear_unread file mask)
  show world.main.hear _ file mask = _
  rw [hmain]
  rfl

theorem create_covered {file : File} {st : Stat} {mask : Nat} (hcovered : Covered host world) :
    Covered host { world.hear host file mask with files := world.files.set file st } := by
  rintro path ⟨hannounced, habsent⟩
  have howed : Owed host world path := by
    refine ⟨hannounced, fun hpresent => habsent ?_⟩
    unfold Present at hpresent ⊢
    rw [Dict.get?_set]
    split
    · rfl
    · exact hpresent
  exact (hcovered path howed).hear

theorem delete_covered {file : File} {mask : Nat}
    (hmask : ∀ name, (Notice.mk mask name).appears = false ∧
      (Notice.mk mask name).disappears = true)
    (hguard : ∀ path, announced world.sent path = true → host.locate path = file →
      OnTheWay host world path ∨ Heard host world file path)
    (hcovered : Covered host world) :
    Covered host { world.hear host file mask with files := world.files.erase file } := by
  rintro path ⟨hannounced, habsent⟩
  have hcoming : OnTheWay host world path ∨ Heard host world file path := by
    by_cases hlocate : host.locate path = file
    · exact hguard path hannounced hlocate
    · refine .inl (hcovered path ⟨hannounced, fun hpresent => habsent ?_⟩)
      unfold Present at hpresent ⊢
      rwa [Dict.get?_erase, if_neg hlocate]
  rcases hcoming with hway | ⟨⟨watch, hopened, hdir, hroom⟩, hpath⟩
  · exact hway.hear
  · exact .inr ⟨⟨mask, file.name⟩, heard_unread hopened hdir hroom, (hmask _).1, (hmask _).2,
      hpath⟩

/-- A message changes the configuration and what the ctl listener does next. -/
theorem reload_frame {msg : PyVal} (h : reload rt world msg = .ok next) :
    ∃ cfg ctl, next = { world with cfg, ctl } := by
  obtain ⟨mtype, -, h⟩ := bind_eq_ok.mp h
  split at h
  · obtain ⟨raw, -, h⟩ := bind_eq_ok.mp h
    obtain ⟨cfg, -, h⟩ := bind_eq_ok.mp h
    obtain ⟨dir, -, h⟩ := bind_eq_ok.mp h
    exact ⟨cfg, .closing dir, (Except.ok.inj h).symm⟩
  · exact ⟨world.cfg, world.ctl, (Except.ok.inj h).symm⟩

/-- A read moves events from the queue to the hand. -/
theorem read_unread {watch : Watch} (count : Nat) (hwatch : world.inotify = some watch)
    (hhand : world.hand = []) :
    world.unread ⊆ World.unread { world with
      hand := watch.queue.take count
      inotify := some { watch with queue := watch.queue.drop count } } := by
  intro notice h
  have hqueue : notice ∈ watch.queue ↔
      notice ∈ watch.queue.take count ∨ notice ∈ watch.queue.drop count := by
    rw [← List.mem_append, List.take_append_drop]
  simp only [World.unread, World.kept, hwatch, hhand, Option.elim_some, List.mem_append,
    hqueue, List.not_mem_nil, false_or] at h ⊢
  tauto

theorem look_of_reports {passwd : Passwd} {notice : Notice} {path : String}
    (h : Reports host world.watchDir notice path) :
    look rt host world passwd notice = .ok (.retracting path) := by
  obtain ⟨happears, hdisappears, hpath⟩ := h
  simp [look, hpath, happears, hdisappears, bind, Except.bind, pure, Except.pure]

theorem next_covered {passwd : Passwd} {notice : Notice} {rest : List Notice} {task : Task}
    (hidle : world.main = .idle) (hhand : world.hand = notice :: rest)
    (hlook : look rt host world passwd notice = .ok task) (hcovered : Covered host world) :
    Covered host { world with main := task, hand := rest } := by
  intro path howed
  rcases hcovered path howed with hsending | ⟨other, hunread, hreports⟩
  · rw [hidle] at hsending
    cases hsending
  by_cases hother : other = notice
  · subst hother
    rw [look_of_reports hreports] at hlook
    cases hlook
    exact .inl rfl
  · refine .inr ⟨other, ?_, hreports⟩
    simp only [World.unread, World.kept, hhand, hidle, List.mem_append, List.mem_cons, hother,
      false_or, Task.queued, List.not_mem_nil, or_false] at hunread ⊢
    tauto

theorem kept_publish {thread : Thread} {dir : String} {watch : Watch}
    (htask : world.task thread = .publishing dir watch) :
    world.kept ⊆ (world.setTask (.listing dir) thread).kept ++ watch.queue := by
  intro notice h
  cases thread with
  | main =>
      have hmain : world.main = .publishing dir watch := htask
      simp only [World.kept, World.setTask, hmain, Task.queued, List.mem_append,
        List.not_mem_nil, or_false] at h ⊢
      tauto
  | ctl =>
      have hctl : world.ctl = .publishing dir watch := htask
      simp only [World.kept, World.setTask, hctl, Task.queued, List.mem_append,
        List.not_mem_nil, or_false] at h ⊢
      exact h

/-- A step that changes neither the files nor what was sent keeps what is on the
way, if its events are still to be read. -/
theorem covered_of_coming (world : World) (notices : List Notice)
    (hfiles : next.files = world.files) (hsent : next.sent = world.sent)
    (hmain : ∀ path, world.main = .retracting path → next.main = .retracting path)
    (hnotices : notices ⊆ next.unread)
    (hcoming : ∀ path, Owed host world path → Coming host world notices next.watchDir path) :
    Covered host next := by
  rintro path ⟨hannounced, habsent⟩
  rw [hsent] at hannounced
  have howed : Owed host world path := by
    refine ⟨hannounced, fun hpresent => habsent ?_⟩
    rw [Present, hfiles]
    exact hpresent
  exact (hcoming path howed).mono (hmain path) hnotices

theorem receive_covered {cfg : PyVal} {ctl : Task} {inbox : List PyVal} (hidle : world.ctl = .idle)
    (hcovered : Covered host world) : Covered host { world with cfg, ctl, inbox } := by
  refine covered_of_coming world world.unread rfl rfl (fun path => id) ?_ hcovered
  have hnone : world.ctl.queued = [] := by rw [hidle]; rfl
  intro notice h
  simp only [World.unread, World.kept, hnone, List.mem_append, List.not_mem_nil,
    or_false] at h ⊢
  tauto

theorem fail_covered (thread : Thread) (hqueued : (world.task thread).queued = [])
    (hmain : thread = .main → ∀ path, ¬ Owed host world path)
    (hcovered : Covered host world) : Covered host (world.fail thread) := by
  cases thread with
  | main => exact fun path howed => absurd howed (hmain rfl path)
  | ctl =>
      have hctl : world.ctl.queued = [] := hqueued
      refine covered_of_coming world world.unread rfl rfl (fun path => id) ?_ hcovered
      show world.unread ⊆ world.hand ++ world.main.queued ++ [] ++ world.inotify.elim [] Watch.queue
      rw [World.unread, World.kept, hctl]
      exact List.Subset.refl _

theorem kept_setTask {task after : Task} {thread : Thread} (htask : world.task thread = task)
    (hqueued : task.queued = []) : world.kept ⊆ (world.setTask after thread).kept := by
  intro notice h
  cases thread with
  | main =>
      have hmain : world.main.queued = [] := (congrArg Task.queued htask).trans hqueued
      simp only [World.kept, World.setTask, hmain, List.mem_append, List.not_mem_nil,
        or_false] at h ⊢
      exact h.imp_left .inl
  | ctl =>
      have hctl : world.ctl.queued = [] := (congrArg Task.queued htask).trans hqueued
      simp only [World.kept, World.setTask, hctl, List.mem_append, List.not_mem_nil,
        or_false] at h ⊢
      exact .inl h

theorem unread_setTask {task after : Task} {thread : Thread} (htask : world.task thread = task)
    (hqueued : task.queued = []) : world.unread ⊆ (world.setTask after thread).unread := by
  rw [World.unread, World.unread, setTask_inotify]
  exact List.append_subset.mpr ⟨List.subset_append_of_subset_left _ (kept_setTask htask hqueued),
    List.subset_append_right ..⟩

/-- A statement that moves its thread on and sends nothing on the watch socket. -/
theorem moved_covered {task after : Task} {thread : Thread} {sent : List Message}
    {told : List Report} (htask : world.task thread = task)
    (hother : ∀ path, task ≠ .retracting path) (hqueued : task.queued = [])
    (hsent : sent = world.sent) (hcovered : Covered host world) :
    Covered host { world.setTask after thread with sent, told } := by
  refine covered_of_coming world world.unread (setTask_files ..) hsent
    (fun path => setTask_retracting htask (hother path)) (unread_setTask htask hqueued) ?_
  rw [setTask_watchDir]
  exact hcovered

theorem setTask_covered {task after : Task} {thread : Thread} {told : List Report}
    (htask : world.task thread = task) (hother : ∀ path, task ≠ .retracting path)
    (hqueued : task.queued = []) (hcovered : Covered host world) :
    Covered host { world.setTask after thread with told } :=
  moved_covered htask hother hqueued (setTask_sent ..) hcovered

theorem announcing_covered {path : String} {msg : PyVal} {after : Task} {thread : Thread}
    (htask : world.task thread = .announcing path msg after)
    (hguard : Present host world path ∨ OnTheWay host world path)
    (hcovered : Covered host world) :
    Covered host { world.setTask after thread with
      sent := world.sent ++ [.appeared path msg] } := by
  rintro other ⟨hannounced, habsent⟩
  have hgone : ¬ Present host world other := by simpa [Present] using habsent
  rw [announced_append, Message.tells, Bool.or_eq_true, decide_eq_true_eq] at hannounced
  have hway : OnTheWay host world other := by
    rcases hannounced with rfl | hearlier
    · exact hguard.resolve_left hgone
    · exact hcovered other ⟨hearlier, hgone⟩
  rw [OnTheWay, setTask_watchDir]
  exact hway.mono (setTask_retracting htask fun h => by cases h) (unread_setTask htask rfl)

theorem retracting_covered {path : String} {sent : List Message} {thread : Thread}
    (htask : world.task thread = .retracting path)
    (hsent : ∀ other, announced sent other = true → ¬ Present host world other →
      other ≠ path ∧ announced world.sent other = true)
    (hcovered : Covered host world) :
    Covered host { world.setTask .idle thread with sent } := by
  rintro other ⟨hannounced, habsent⟩
  have hgone : ¬ Present host world other := by simpa [Present] using habsent
  obtain ⟨hother, hearlier⟩ := hsent other hannounced hgone
  rw [OnTheWay, setTask_watchDir]
  have hleaves : Task.retracting path ≠ .retracting other :=
    fun heq => hother (Task.retracting.inj heq).symm
  exact (hcovered other ⟨hearlier, hgone⟩).mono (setTask_retracting htask hleaves)
    (unread_setTask htask rfl)

/-- A thread that goes on keeps what is on the way. -/
theorem work_covered {thread : Thread} {answers : Answers}
    (hguard : WorkLosesNothing rt host world thread answers (world.task thread))
    (h : work rt host world thread answers (world.task thread) = .ok next)
    (hcovered : Covered host world) : Covered host next := by
  cases htask : world.task thread with
  | idle | ended =>
      rw [htask] at h
      cases h
      exact hcovered
  | closing dir =>
      rw [htask] at h hguard
      cases h
      refine covered_of_coming world world.kept (setTask_files ..) (setTask_sent ..)
        (fun path => setTask_retracting htask fun h => by cases h) ?_ ?_
      · exact List.subset_append_of_subset_left _ (kept_setTask htask rfl)
      · rw [setTask_watchDir]
        exact hguard
  | naming dir =>
      rw [htask] at h hguard
      cases h
      exact covered_of_coming world world.unread (setTask_files ..) (setTask_sent ..)
        (fun path => setTask_retracting htask fun h => by cases h)
        (unread_setTask htask rfl) hguard
  | checking dir =>
      rw [htask] at h
      obtain ⟨verdict, -, h⟩ := bind_eq_ok.mp h
      split at h
      · cases h
        exact setTask_covered htask (fun _ h => by cases h) rfl hcovered
      · cases h
        exact setTask_covered htask (fun _ h => by cases h) rfl hcovered
      · cases h
  | adding dir =>
      rw [htask, work] at h
      split at h <;> cases h <;>
        exact setTask_covered htask (fun _ h => by cases h) rfl hcovered
  | publishing dir watch =>
      rw [htask] at h hguard
      cases h
      refine covered_of_coming world world.kept (setTask_files ..) (setTask_sent ..)
        (fun path => setTask_retracting htask fun h => by cases h) ?_ ?_
      · exact kept_publish htask
      · rw [setTask_watchDir]
        exact hguard
  | listing dir =>
      rw [htask] at h
      cases h
      exact setTask_covered htask (fun _ h => by cases h) rfl hcovered
  | scanning dir names =>
      rw [htask] at h
      cases names with
      | nil =>
          cases h
          exact setTask_covered htask (fun _ h => by cases h) rfl hcovered
      | cons name rest =>
          obtain ⟨task, rfl⟩ : ∃ task, next = world.setTask task thread := by
            rw [work] at h
            split at h
            · obtain ⟨task, -, h⟩ := bind_eq_ok.mp h
              exact ⟨task, (Except.ok.inj h).symm⟩
            · exact ⟨_, (Except.ok.inj h).symm⟩
          exact setTask_covered htask (fun _ h => by cases h) rfl hcovered
  | announcing path msg after =>
      rw [htask] at h hguard
      cases h
      cases hok : answers.ok with
      | false => exact moved_covered htask (fun _ h => by cases h) rfl rfl hcovered
      | true => exact announcing_covered htask (hguard hok) hcovered
  | retracting path =>
      rw [htask] at h hguard
      cases h
      refine retracting_covered htask (fun other hannounced hgone => ?_) hcovered
      cases hok : answers.ok with
      | false =>
          rw [hok] at hannounced
          refine ⟨?_, hannounced⟩
          rintro rfl
          exact hguard.resolve_left (by simp [hok]) ⟨hannounced, hgone⟩
      | true =>
          rw [hok, if_pos rfl, announced_append, Message.tells, Bool.and_eq_true,
            bne_iff_ne] at hannounced
          exact ⟨Ne.symm hannounced.1, hannounced.2⟩

/-- Only the check of a directory or of a socket raises. -/
theorem work_fail_covered {thread : Thread} {answers : Answers} {e : PyExc}
    (hguard : WorkLosesNothing rt host world thread answers (world.task thread))
    (h : work rt host world thread answers (world.task thread) = .error e)
    (hcovered : Covered host world) : Covered host (world.fail thread) := by
  have hraised : ∀ {goal : Prop}, thread = .main → (∃ next,
      work rt host world .main answers (world.task thread) = .ok next) ∨ goal → goal := by
    rintro goal rfl (⟨next, hnext⟩ | hgoal)
    · rw [h] at hnext
      cases hnext
    · exact hgoal
  cases htask : world.task thread with
  | checking dir | scanning dir names =>
      rw [htask] at hguard hraised
      exact fail_covered thread (by rw [htask]; rfl)
        (fun hmain => hraised hmain (hguard hmain)) hcovered
  | adding dir =>
      rw [htask, work] at h
      split at h <;> cases h
  | idle | ended | closing dir | naming dir | publishing dir watch | listing dir
    | announcing path msg after | retracting path =>
      rw [htask] at h
      cases h

theorem deletes (moved : Bool) (name : String) :
    (Notice.mk (if moved then inMovedFrom else inDelete) name).appears = false ∧
      (Notice.mk (if moved then inMovedFrom else inDelete) name).disappears = true := by
  cases moved <;>
    simp [Notice.appears, Notice.disappears, inCreate, inMovedTo, inDelete, inMovedFrom]

/-- A step that loses nothing keeps every disappearance on the way. -/
theorem step_covered {event : Event} (hguard : LosesNothing rt host world event)
    (h : step rt host world event = some next) (hcovered : Covered host world) :
    Covered host next := by
  cases event with
  | create file st moved =>
      rw [step] at h
      split at h
      · cases h
      · cases h
        exact create_covered hcovered
  | delete file moved =>
      rw [step] at h
      split at h
      · cases h
      · cases h
        exact delete_covered (deletes moved) hguard hcovered
  | push msg =>
      cases h
      exact hcovered
  | receive =>
      rw [step] at h
      split at h
      · rename_i msg rest hctl hinbox
        split at h
        · cases h
          exact receive_covered hctl hcovered
        · rename_i reloaded hreload
          cases h
          obtain ⟨cfg, ctl, rfl⟩ := reload_frame hreload
          exact receive_covered hctl hcovered
      · cases h
  | read count =>
      rw [step] at h
      split at h
      · rename_i watch hmain hhand hinotify
        cases h
        exact covered_of_coming world world.unread rfl rfl (fun path => id)
          (read_unread count hinotify hhand) hcovered
      · cases h
  | next passwd =>
      rw [step] at h
      split at h
      · rename_i notice rest hmain hhand
        split at h
        · rename_i e hlook
          cases h
          refine fail_covered .main (by rw [World.task, hmain]; rfl) (fun _ => ?_) hcovered
          rcases hguard notice rest hhand with ⟨task, htask⟩ | hnone
          · rw [hlook] at htask
            cases htask
          · exact hnone
        · rename_i task hlook
          cases h
          exact next_covered hmain hhand hlook hcovered
      · cases h
  | act thread answers =>
      rw [step] at h
      split at h
      · cases h
      · cases h
      · split at h
        · rename_i e hwork
          cases h
          exact work_fail_covered hguard hwork hcovered
        · rename_i worked hwork
          cases h
          exact work_covered hguard hwork hcovered

/-- When every message and every event is dealt with, each announced path that is gone
has been taken back, if no step lost the disappearance. -/
theorem disappeared_sent {files : Dict File Stat} {watchDir cfg : PyVal} {events : List Event}
    {finish : World}
    (hrun : GuardedRun (step rt host) (LosesNothing rt host) (.start files watchDir cfg) events
      finish)
    (hquiet : Quiet finish) (path : String) (msg : PyVal) (hsent : .appeared path msg ∈ finish.sent)
    (hgone : ¬ Present host finish path) : Retracted finish.sent path := by
  have hcovered : Covered host finish := by
    have hstart : Covered host (.start files watchDir cfg) := fun other howed => by cases howed.1
    have hpreserved : ∀ world event next, Covered host world → LosesNothing rt host world event →
        step rt host world event = some next → Covered host next :=
      fun _ _ _ hbefore hguard hstep => step_covered hguard hstep hbefore
    exact hrun.invariant hpreserved hstart
  cases hannounced : announced finish.sent path with
  | false => exact retracted_of_not_announced hsent hannounced
  | true =>
      rcases hcovered path ⟨hannounced, hgone⟩ with hsending | ⟨notice, hunread, -⟩
      · rcases hquiet.main with hmain | hmain <;>
          · rw [hmain] at hsending
            cases hsending
      · rw [hquiet.unread] at hunread
        cases hunread

end

def labHost : Host where
  directory := id
  locate := fun path =>
    if path = "/run/vnctlsd/lab01.sock" then ⟨"/run/vnctlsd", "lab01.sock"⟩ else ⟨"/", path⟩
  decode := id
  maxQueuedEvents := 16384

def labSocket : File := ⟨"/run/vnctlsd", "lab01.sock"⟩

def labConsole : PyVal := .ofFields [("consoles", .ofFields [("lab01", .ofFields [
  ("console_name", .str "lab01"), ("socket", .str "/run/vnctlsd/lab01.sock")])])]

def labStart : World :=
  .start (Dict.empty.set labSocket ⟨0o140755, 107⟩) (.str "/run/vnctlsd") labConsole

def answers (names : List String) : Answers :=
  ⟨true, .ok ⟨0o040750, 0⟩, names, fun name => if name = "libvirt-qemu" then some 107 else none⟩

def announceLab : List Event := List.replicate 9 (.act .main (answers ["lab01.sock"]))

/-- The message and a `start_watch` that finds nothing to announce. -/
def reloadLab : List Event := [.push (.ofFields [("type", .str "RELOAD_WATCH")]), .receive] ++
  List.replicate 7 (.act .ctl (answers []))

theorem announced_taken_back (path : String) (msg : PyVal) (other : String) :
    announced [.appeared path msg, .disappeared path] other ≠ true := by
  by_cases h : path = other <;> simp [announced, Message.tells, h]

/-- The deletion is read and reported before the reload. -/
theorem disappeared_sent_lab01 :
    ∃ finish, GuardedRun (step .plain labHost) (LosesNothing .plain labHost) labStart
      (announceLab ++ [.delete labSocket false, .read 1, .next (answers []).passwd,
        .act .main (answers [])] ++ reloadLab) finish ∧
      Retracted finish.sent "/run/vnctlsd/lab01.sock" := by
  obtain ⟨finish, msg, hrun, hquiet, hsent, hgone⟩ : ∃ finish msg, GuardedRun (step .plain labHost)
      (LosesNothing .plain labHost) labStart
      (announceLab ++ [.delete labSocket false, .read 1, .next (answers []).passwd,
        .act .main (answers [])] ++ reloadLab) finish ∧ Quiet finish ∧
      finish.sent = [.appeared "/run/vnctlsd/lab01.sock" msg,
        .disappeared "/run/vnctlsd/lab01.sock"] ∧
      ¬ Present labHost finish "/run/vnctlsd/lab01.sock" := by
    refine ⟨_, _, .cons ?_ rfl (.cons ?_ rfl (.cons ?_ rfl (.cons ?_ rfl (.cons ?_ rfl (.cons ?_ rfl
      (.cons ?_ rfl (.cons ?_ rfl (.cons ?_ rfl (.cons ?_ rfl (.cons ?_ rfl (.cons ?_ rfl
      (.cons ?_ rfl (.cons ?_ rfl (.cons ?_ rfl (.cons ?_ rfl (.cons ?_ rfl (.cons ?_ rfl
      (.cons ?_ rfl (.cons ?_ rfl (.cons ?_ rfl (.cons ?_ rfl (.nil _)))))))))))))))))))))),
      ⟨.inl rfl, .inl rfl, rfl, rfl⟩, rfl, fun h => by cases h⟩
    · exact fun path howed => by cases howed.1
    · exact fun path howed => by cases howed.1
    · exact fun _ => .inl ⟨_, rfl⟩
    · exact fun _ => .inl ⟨_, rfl⟩
    · exact fun path howed => by cases howed.1
    · exact fun _ => .inl ⟨_, rfl⟩
    · exact fun _ => .inl ⟨_, rfl⟩
    · exact fun _ => .inl rfl
    · exact fun _ => .inl ⟨_, rfl⟩
    · intro path hannounced hlocate
      obtain rfl : path = "/run/vnctlsd/lab01.sock" := by
        by_contra hne
        simp [labHost, labSocket, hne] at hlocate
      exact .inr ⟨⟨_, .inl rfl, rfl, by decide⟩, rfl⟩
    · trivial
    · intro notice rest hhand
      cases hhand
      exact .inl ⟨_, rfl⟩
    · exact .inl rfl
    · trivial
    · trivial
    · exact fun path howed => absurd howed.1 (announced_taken_back _ _ _)
    · exact fun path howed => absurd howed.1 (announced_taken_back _ _ _)
    · exact fun _ => .inl ⟨_, rfl⟩
    · exact fun _ => .inl ⟨_, rfl⟩
    · exact fun path howed => absurd howed.1 (announced_taken_back _ _ _)
    · exact fun _ => .inl ⟨_, rfl⟩
    · exact fun _ => .inl ⟨_, rfl⟩
  refine ⟨finish, hrun, disappeared_sent hrun hquiet _ msg ?_ hgone⟩
  rw [hsent]
  exact List.mem_cons_self ..

/-- A RELOAD_WATCH that comes while the deletion waits in the queue: the socket was
announced, is gone, and is never taken back. -/
theorem reload_loses_deletion :
    ∃ finish msg, Run (step .plain labHost) labStart
      (announceLab ++ [.delete labSocket false] ++ reloadLab) finish ∧ Quiet finish ∧
      .appeared "/run/vnctlsd/lab01.sock" msg ∈ finish.sent ∧
      ¬ Present labHost finish "/run/vnctlsd/lab01.sock" ∧
      ¬ Retracted finish.sent "/run/vnctlsd/lab01.sock" := by
  obtain ⟨finish, msg, hrun, hquiet, hsent, hgone⟩ : ∃ finish msg, Run (step .plain labHost)
      labStart (announceLab ++ [.delete labSocket false] ++ reloadLab) finish ∧ Quiet finish ∧
      finish.sent = [.appeared "/run/vnctlsd/lab01.sock" msg] ∧
      ¬ Present labHost finish "/run/vnctlsd/lab01.sock" :=
    ⟨_, _, run_of_exec rfl, ⟨.inl rfl, .inl rfl, rfl, rfl⟩, rfl, fun h => by cases h⟩
  refine ⟨finish, msg, hrun, hquiet, hsent ▸ List.mem_singleton_self _, hgone, ?_⟩
  rintro ⟨before, after, hsplit, -⟩
  have hmem : Message.disappeared "/run/vnctlsd/lab01.sock" ∈ finish.sent := by
    rw [hsplit]
    exact List.mem_append_right _ (List.mem_cons_self ..)
  rw [hsent] at hmem
  cases List.mem_singleton.mp hmem

end Vnctlsd.Watcher.Reload
