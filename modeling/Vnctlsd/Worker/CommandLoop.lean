import Vnctlsd.Ipc.Requests
import Vnctlsd.Worker.ListCommand
import Vnctlsd.Worker.PromptWords

/-! The command loop of `run_authenticated_session`, from the bytes of the client to what
the monitor is asked. -/
namespace Vnctlsd.Worker.CommandLoop
open Vnctlsd.Library.Transition Vnctlsd.Python ConsoleConfigStore UserMapStore ACLResolver Ipc
open ConsoleCommand ManagementCommand ListCommand ConsoleSession SockReadline PromptWords

/-- What the stores and the hub registry hold while a command runs.  It asks the registry
twice, and the hub can come or go in between.  An update of a store between two of its
reads is the subject of `TornReads`. -/
structure View where
  cfg : PyVal
  userMap : PyVal
  hubs : Hubs
  hubsLater : Hubs

def live (hubs : Hubs) (cname : String) : Bool := (hubs.get? (.str cname)).isSome

/-- The monitor's answers: the error of a console that could not be spawned, and the text
that an action has rendered. -/
structure Monitor where
  spawn : (username cname : String) → Py (Option String)
  runAction : (action cname : String) → Py String

inductive Next where
  | again
  | goodbye
  | attach (cname : String) (level : Level)
  | spawn (cname : String) (level : Level)
  | runAction (action cname : String)
  deriving DecidableEq

/-- What a command tells the client, and what comes after. -/
structure Turn where
  sent : String
  next : Next
  deriving DecidableEq

def say (text : String) : Turn := ⟨text, .again⟩

def helpText : String :=
  "Commands:\r\n" ++
  "  list                  list accessible consoles and their state\r\n" ++
  "  console <name>        attach to a console\r\n" ++
  "  status  <name>        show VM power state\r\n" ++
  "  start   <name>        start VM\r\n" ++
  "  reset   <name>        graceful reboot\r\n" ++
  "  force_reset <name>    hard reset\r\n" ++
  "  poweroff <name>       hard poweroff\r\n" ++
  "  help                  this text\r\n" ++
  "  quit / exit           disconnect\r\n" ++
  "\r\n" ++
  "Console escape sequences (while attached):\r\n" ++
  "  ~.    detach and return to prompt\r\n" ++
  "  ~~    send a literal ~ to the console\r\n" ++
  "\r\n"

def prompt : String := "vnctlsd> "

def consoleTurn (cname : String) : Outcome → Turn
  | .notFound => say "Console not found or not active.\r\n"
  | .denied => say "Access denied to this console.\r\n"
  | .noExecDefinition => say "Console not active and no exec definition.\r\n"
  | .notYetActive => say "Console not yet active. Wait for the VM to connect.\r\n"
  | .spawn level => ⟨"", .spawn cname level⟩
  | .attach level => ⟨"", .attach cname level⟩

def unknownTurn (rt : Runtime) (action : String) : Turn :=
  let shown := rt.repr (.str action)
  say s!"Unknown command: {shown}. Type 'help'.\r\n"

def managedTurn (rt : Runtime) (action : String) : Managed → Turn
  | .unknownCommand => unknownTurn rt action
  | .denied => say "Access denied.\r\n"
  | .requested action cname => ⟨"", .runAction action cname⟩

variable (rt : Runtime) (lower : String → String) (numLe : Key → Key → Bool)

def console (view : View) (username : String) : (arguments : List String) → Py Turn
  | [] => .ok (say "Usage: console <name>\r\n")
  | cname :: _ =>
      (consoleCommand rt view.userMap view.cfg username cname (live view.hubs cname)
        (live view.hubsLater cname)).map (consoleTurn cname)

def manage (view : View) (username action : String) : (arguments : List String) → Py Turn
  | [] => (getAllCommands view.cfg).map fun commands =>
      if commands.any fun command => command.eqStr action then
        say s!"Usage: {action} <console_name>\r\n"
      else unknownTurn rt action
  | cname :: _ =>
      (managementCommand rt view.userMap view.cfg username action cname).map
        (managedTurn rt action)

/-- One line, by its words. -/
def command (view : View) (username : String) : (parts : List String) → Py Turn
  | [] => .ok (say "")
  | word :: arguments =>
      let action := lower word
      if action = "quit" ∨ action = "exit" then .ok ⟨"Goodbye.\r\n", .goodbye⟩
      else if action = "help" then .ok (say helpText)
      else if action = "list" then
        (listCommand rt numLe view.userMap view.cfg username view.hubs).map
          fun listing => say listing.text
      else if action = "console" then console rt view username arguments
      else manage rt view username action arguments

inductive Phase where
  | prompt
  | attached (cname : String)
  | ended
  deriving DecidableEq

/-- The session with what it has sent to its client and what it has asked the monitor,
each with the view in which it was decided. -/
structure World where
  phase : Phase
  channel : Channel
  sent : List UInt8
  asked : List (View × Request)

def World.send (world : World) (text : String) : World :=
  { world with sent := world.sent ++ Utf8.encode text.toList }

def World.quit (world : World) : World := { world with phase := .ended }

def World.back (world : World) : World := ({ world with phase := .prompt }).send prompt

def World.ask (world : World) (view : View) (request : Request) : World :=
  { world with asked := world.asked ++ [(view, request)] }

def World.start : World :=
  World.back (World.send ⟨.prompt, ⟨⟨false, false⟩, false, [], false, [], false⟩, [], []⟩
    "\r\nLogin successful.\r\n")

/-- The session attaches, and `run_console_session` starts on what is in the queue. -/
def World.attach (world : World) (cname : String) (level : Level) : World :=
  let mode := if level = .readOnly then "read-only" else "read-write"
  let channel : Channel :=
    ⟨world.channel.sock, level = .readOnly, world.channel.queue, false, [], true⟩
  ({ world with phase := .attached cname, channel }).send
    s!"\r\n[Attached to {cname} ({mode}). Escape: ~. to detach  ~~ for literal ~]\r\n"

/-- What the loop does with the turn of a command. -/
def World.turn (world : World) (username : String) (view : View) (monitor : Monitor)
    (turn : Turn) : World :=
  let world := world.send turn.sent
  match turn.next with
  | .again => world.back
  | .goodbye => world.quit
  | .attach cname level => world.attach cname level
  | .spawn cname level =>
      let world := world.ask view (.spawn username cname)
      match monitor.spawn username cname with
      | .error _ => world.quit
      | .ok (some err) => (world.send s!"Spawn failed: {err}\r\n").back
      | .ok none => world.attach cname level
  | .runAction action cname =>
      let world := world.ask view (.runAction action cname)
      match monitor.runAction action cname with
      | .error _ => world.quit
      | .ok rendered => (world.send rendered).back

/-- `client` is what the client sends and what `run_console_session` does with it, `line`
a line with its command, `detached` the way back from a console; `fails` is an exception
or the end of the stream. -/
inductive Event where
  | client (event : ConsoleSession.Event)
  | line (view : View) (monitor : Monitor)
  | detached
  | fails

def step (username : String) (world : World) : Event → Option World
  | .client event =>
      (ConsoleSession.step world.channel event).map fun channel => { world with channel }
  | .line view monitor =>
      if world.phase = .prompt then
        let call := sockReadline true maxLine world.channel.queue
        let world : World := { world with
          channel := { world.channel with queue := call.rest }
          sent := world.sent ++ call.echoed }
        match call.result with
        | .waiting _ => none
        | .interrupted => some world.quit
        | .line text =>
            match command rt lower numLe view username (parts text) with
            | .error _ => some world.quit
            | .ok turn => some (world.turn username view monitor turn)
      else none
  | .detached =>
      match world.phase with
      | .attached cname =>
          if world.channel.attached then none
          else some (world.send s!"\r\n[Detached from {cname}]\r\n").back
      | .prompt | .ended => none
  | .fails => if world.phase = .ended then none else some world.quit

variable {rt lower numLe} {view : View} {username word cname : String} {others : List String}
  {monitor : Monitor} {world next : World}

theorem command_console (hword : lower word = "console") :
    command rt lower numLe view username (word :: cname :: others) =
      (consoleCommand rt view.userMap view.cfg username cname (live view.hubs cname)
        (live view.hubsLater cname)).map (consoleTurn cname) := by
  simp only [command, hword]
  rfl

theorem command_manage (hword : lower word ∉ builtIn) (arguments : List String) :
    command rt lower numLe view username (word :: arguments) =
      manage rt view username (lower word) arguments := by
  simp only [builtIn, List.mem_cons, List.not_mem_nil, or_false, not_or] at hword
  obtain ⟨hquit, hexit, hhelp, hlist, hconsole⟩ := hword
  simp only [command, hquit, hexit, hhelp, hlist, hconsole, or_self, if_false]

/-- What the monitor is asked before a turn is over. -/
def Next.request (username : String) : Next → Option Request
  | .spawn cname _ => some (.spawn username cname)
  | .runAction action cname => some (.runAction action cname)
  | .again | .goodbye | .attach _ _ => none

/-- A command that asks the monitor has two words: the first is `console`, or an action of
the configuration, and the second is the name. -/
inductive Asks (rt : Runtime) (lower : String → String) (view : View) (username : String) :
    List String → Request → Prop where
  | spawn {word cname : String} {others : List String} {level : Level} :
      lower word = "console" →
      consoleCommand rt view.userMap view.cfg username cname (live view.hubs cname)
        (live view.hubsLater cname) = .ok (.spawn level) →
      Asks rt lower view username (word :: cname :: others) (.spawn username cname)
  | runAction {word cname : String} {others : List String} :
      Configured view.cfg (lower word) →
      managementCommand rt view.userMap view.cfg username (lower word) cname =
        .ok (.requested (lower word) cname) →
      Asks rt lower view username (word :: cname :: others) (.runAction (lower word) cname)

theorem managementCommand_requested {userMap cfg : PyVal} {action action' cname' : String}
    (h : managementCommand rt userMap cfg username action cname = .ok (.requested action' cname')) :
    action' = action ∧ cname' = cname ∧ ∃ commands, getAllCommands cfg = .ok commands ∧
      (commands.any fun command => command.eqStr action) = true := by
  obtain ⟨commands, hcommands, h⟩ := bind_eq_ok.mp h
  cases hmem : commands.any fun command => command.eqStr action with
  | false =>
      rw [hmem] at h
      cases h
  | true =>
      rw [hmem] at h
      obtain ⟨found, -, h⟩ := bind_eq_ok.mp h
      obtain ⟨level, -, h⟩ := bind_eq_ok.mp h
      cases level with
      | none => cases h
      | some level =>
          cases h
          exact ⟨rfl, rfl, commands, hcommands, hmem⟩

theorem asks_of_console {arguments : List String} {turn : Turn} {request : Request}
    (hword : lower word = "console")
    (h : console rt view username arguments = .ok turn)
    (hrequest : turn.next.request username = some request) :
    Asks rt lower view username (word :: arguments) request := by
  cases arguments with
  | nil =>
      cases h
      cases hrequest
  | cons cname others =>
      obtain ⟨outcome, houtcome, rfl⟩ := map_eq_ok.mp h
      cases outcome with
      | spawn level =>
          cases hrequest
          exact .spawn hword houtcome
      | notFound | denied | noExecDefinition | notYetActive | attach _ => cases hrequest

theorem asks_of_manage {arguments : List String} {turn : Turn} {request : Request}
    (hword : lower word ∉ builtIn)
    (h : manage rt view username (lower word) arguments = .ok turn)
    (hrequest : turn.next.request username = some request) :
    Asks rt lower view username (word :: arguments) request := by
  cases arguments with
  | nil =>
      obtain ⟨commands, -, rfl⟩ := map_eq_ok.mp h
      split at hrequest <;> cases hrequest
  | cons cname others =>
      obtain ⟨managed, hmanaged, rfl⟩ := map_eq_ok.mp h
      cases managed with
      | requested action' cname' =>
          cases hrequest
          obtain ⟨rfl, rfl, hconfigured⟩ := managementCommand_requested hmanaged
          exact .runAction ⟨hword, hconfigured⟩ hmanaged
      | unknownCommand | denied => cases hrequest

/-- The commands that ask the monitor, and what they ask. -/
theorem asks_iff {parts : List String} {request : Request} :
    (∃ turn, command rt lower numLe view username parts = .ok turn ∧
        turn.next.request username = some request) ↔
      Asks rt lower view username parts request := by
  constructor
  · rintro ⟨turn, h, hrequest⟩
    cases parts with
    | nil =>
        cases h
        cases hrequest
    | cons word arguments =>
        rw [command] at h
        split at h
        · cases h
          cases hrequest
        · rename_i hleave
          split at h
          · cases h
            cases hrequest
          · rename_i hhelp
            split at h
            · obtain ⟨listing, -, rfl⟩ := map_eq_ok.mp h
              cases hrequest
            · rename_i hlist
              split at h
              · rename_i hconsole
                exact asks_of_console hconsole h hrequest
              · rename_i hconsole
                refine asks_of_manage (fun hmem => ?_) h hrequest
                rw [not_or] at hleave
                simp only [builtIn, List.mem_cons, hleave, hhelp, hlist, hconsole,
                  List.not_mem_nil, or_self] at hmem
  · intro h
    cases h with
    | spawn hword houtcome =>
        exact ⟨_, (command_console hword).trans (map_eq_ok.mpr ⟨_, houtcome, rfl⟩), rfl⟩
    | runAction hconfigured hmanaged =>
        exact ⟨_, (command_manage hconfigured.1 _).trans (map_eq_ok.mpr ⟨_, hmanaged, rfl⟩), rfl⟩

/-- What a session can ask the monitor where the command runs in `view`: what the access
decision grants the session's own user, by words that can be typed and fit in a line. -/
inductive Grants (rt : Runtime) (lower : String → String) (view : View) (username : String) :
    Request → Prop where
  | spawn {cname : String} {level : Level} :
      consoleCommand rt view.userMap view.cfg username cname (live view.hubs cname)
        (live view.hubsLater cname) = .ok (.spawn level) →
      Typable cname → Utf8.cost cname.toList ≤ 248 →
      Grants rt lower view username (.spawn username cname)
  | runAction {word cname : String} :
      Configured view.cfg (lower word) →
      managementCommand rt view.userMap view.cfg username (lower word) cname =
        .ok (.requested (lower word) cname) →
      Typable word → Typable cname →
      Utf8.cost word.toList + Utf8.cost cname.toList < maxLine →
      Grants rt lower view username (.runAction (lower word) cname)

/-- The one word that is fixed is `console`, up to its case. -/
def LowersConsole (lower : String → String) : Prop :=
  ∀ word, lower word = "console" ↔ word.toList.map Char.toLower = "console".toList

theorem length_of_console (hlower : LowersConsole lower) (hword : lower word = "console") :
    word.toList.length = 7 := by
  have hlength := congrArg List.length ((hlower word).mp hword)
  rw [List.length_map] at hlength
  exact hlength

/-- What a line asks can be asked. -/
theorem grants_of_asks (hlower : LowersConsole lower) {line bytes : List UInt8}
    {request : Request} (hline : (sockReadline true maxLine bytes).result = .line line)
    (h : Asks rt lower view username (parts line) request) :
    Grants rt lower view username request := by
  generalize hparts : parts line = words at h
  cases h with
  | spawn hword houtcome =>
      obtain ⟨-, hname, hfits⟩ := (parts_iff _ _).mp ⟨bytes, line, _, hline, hparts⟩
      have hseven := length_le_cost _ |>.trans' (length_of_console hlower hword).ge
      refine .spawn houtcome hname ?_
      unfold maxLine at hfits
      omega
  | runAction hconfigured hmanaged =>
      obtain ⟨hverb, hname, hfits⟩ := (parts_iff _ _).mp ⟨bytes, line, _, hline, hparts⟩
      exact .runAction hconfigured hmanaged hverb hname hfits

theorem typable_console : Typable "console" := typable_of_all (by decide) (by decide)

/-- What can be asked is asked by a line of two words. -/
theorem asks_of_grants (hlower : LowersConsole lower) {request : Request}
    (h : Grants rt lower view username request) :
    ∃ word cname, Typable word ∧ Typable cname ∧
      Utf8.cost word.toList + Utf8.cost cname.toList < maxLine ∧
      Asks rt lower view username [word, cname] request := by
  cases h with
  | spawn houtcome hname hfits =>
      have hconsole : Utf8.cost "console".toList = 7 := by decide
      refine ⟨"console", _, typable_console, hname, ?_,
        .spawn ((hlower _).mpr (by decide)) houtcome⟩
      unfold maxLine
      omega
  | runAction hconfigured hmanaged hword hname hfits =>
      exact ⟨_, _, hword, hname, hfits, .runAction hconfigured hmanaged⟩

/-! What one step asks, and a whole run. -/

@[simp] theorem asked_send (world : World) (text : String) :
    (world.send text).asked = world.asked := rfl

@[simp] theorem asked_quit (world : World) : world.quit.asked = world.asked := rfl

@[simp] theorem asked_back (world : World) : world.back.asked = world.asked := rfl

@[simp] theorem asked_attach (world : World) (cname : String) (level : Level) :
    (world.attach cname level).asked = world.asked := rfl

@[simp] theorem asked_ask (world : World) (view : View) (request : Request) :
    (world.ask view request).asked = world.asked ++ [(view, request)] := rfl

theorem asked_turn (world : World) (view : View) (monitor : Monitor) (turn : Turn) :
    (world.turn username view monitor turn).asked =
      world.asked ++ ((turn.next.request username).map fun request => (view, request)).toList := by
  unfold World.turn
  cases turn.next with
  | again | goodbye | attach cname level => exact (List.append_nil _).symm
  | spawn cname level =>
      dsimp only
      cases monitor.spawn username cname with
      | error e => rfl
      | ok err => cases err <;> rfl
  | runAction action cname =>
      dsimp only
      cases monitor.runAction action cname <;> rfl

theorem asked_step (hlower : LowersConsole lower) {event : Event}
    (h : step rt lower numLe username world event = some next) :
    next.asked = world.asked ∨ ∃ view request, next.asked = world.asked ++ [(view, request)] ∧
      Grants rt lower view username request := by
  cases event with
  | client event =>
      obtain ⟨channel, -, rfl⟩ := Option.map_eq_some_iff.mp h
      exact .inl rfl
  | fails =>
      obtain ⟨-, ⟨⟩⟩ := Option.ite_none_left_eq_some.mp h
      exact .inl rfl
  | detached =>
      rw [step] at h
      split at h
      · split at h <;> cases h
        exact .inl rfl
      · cases h
      · cases h
  | line view monitor =>
      obtain ⟨-, h⟩ := Option.ite_none_right_eq_some.mp h
      cases hline : (sockReadline true maxLine world.channel.queue).result with
      | waiting text =>
          simp only [hline] at h
          cases h
      | interrupted =>
          simp only [hline] at h
          cases h
          exact .inl rfl
      | line text =>
          simp only [hline] at h
          cases hcommand : command rt lower numLe view username (parts text) with
          | error e =>
              simp only [hcommand] at h
              cases h
              exact .inl rfl
          | ok turn =>
              simp only [hcommand] at h
              cases h
              rw [asked_turn]
              cases hrequest : turn.next.request username with
              | none => exact .inl (List.append_nil _)
              | some request =>
                  have hasks := asks_iff.mp ⟨turn, hcommand, hrequest⟩
                  exact .inr ⟨view, request, rfl, grants_of_asks hlower hline hasks⟩

/-- All that was asked was granted when it was asked. -/
def Granted (rt : Runtime) (lower : String → String) (username : String) (world : World) : Prop :=
  ∀ entry ∈ world.asked, Grants rt lower entry.1 username entry.2

theorem granted_step (hlower : LowersConsole lower) {event : Event}
    (hworld : Granted rt lower username world)
    (h : step rt lower numLe username world event = some next) :
    Granted rt lower username next := by
  rcases asked_step hlower h with hsame | ⟨view, request, hmore, hgrants⟩
  · rw [Granted, hsame]
    exact hworld
  · rw [Granted, hmore]
    refine List.forall_mem_append.mpr ⟨hworld, fun entry hmem => ?_⟩
    cases List.mem_singleton.mp hmem
    exact hgrants

theorem granted_run (hlower : LowersConsole lower) {events : List Event}
    (hrun : Run (step rt lower numLe username) .start events world) :
    Granted rt lower username world :=
  hrun.invariant (fun _ _ _ hworld hstep => granted_step hlower hworld hstep)
    fun _ hmem => absurd hmem List.not_mem_nil

/-- The session is at its prompt and has nothing to read. -/
structure Ready (world : World) : Prop where
  phase : world.phase = .prompt
  queue : world.channel.queue = []
  sock : world.channel.sock = ⟨false, false⟩

theorem ready_start : Ready .start := ⟨rfl, rfl, rfl⟩

/-- The monitor raises nothing. -/
def Monitor.Returns (monitor : Monitor) : Prop :=
  (∀ username cname, ∃ result, monitor.spawn username cname = .ok result) ∧
    ∀ action cname, ∃ rendered, monitor.runAction action cname = .ok rendered

/-- All lines of a run are taken with the one monitor. -/
def With (monitor : Monitor) (events : List Event) : Prop :=
  ∀ event ∈ events, match event with
    | .line _ other => other = monitor
    | .client _ | .detached | .fails => True

theorem With.append {first second : List Event} (hfirst : With monitor first)
    (hsecond : With monitor second) : With monitor (first ++ second) :=
  List.forall_mem_append.mpr ⟨hfirst, hsecond⟩

/-- From a console the session comes back to its prompt when the hub is done. -/
theorem back_of_attach (world : World) (hsock : world.channel.sock = ⟨false, false⟩)
    (hqueue : world.channel.queue = []) (level : Level) :
    ∃ finish, Run (step rt lower numLe username) (world.attach cname level)
        [.client .leave, .detached] finish ∧ Ready finish ∧ finish.asked = world.asked :=
  ⟨_, .cons rfl (.cons rfl (.nil _)), ⟨rfl, hqueue, hsock⟩, rfl⟩

/-- After a turn that asks a monitor that raises nothing, the session gets back to its
prompt. -/
theorem back_of_turn (hworld : Ready world) (hmonitor : monitor.Returns) {turn : Turn}
    {request : Request} (hrequest : turn.next.request username = some request) :
    ∃ events finish, Run (step rt lower numLe username)
        (world.turn username view monitor turn) events finish ∧ With monitor events ∧
      Ready finish ∧ finish.asked = world.asked ++ [(view, request)] := by
  obtain ⟨sent, next⟩ := turn
  have hnothing : With monitor [] := fun _ hmem => absurd hmem List.not_mem_nil
  cases next with
  | again | goodbye | attach cname level => cases hrequest
  | spawn cname level =>
      cases hrequest
      obtain ⟨result, hresult⟩ := hmonitor.1 username cname
      simp only [World.turn, hresult]
      cases result with
      | some err => exact ⟨[], _, .nil _, hnothing, ⟨rfl, hworld.queue, hworld.sock⟩, rfl⟩
      | none =>
          obtain ⟨finish, hrun, hready, hasked⟩ := back_of_attach
            ((world.send sent).ask view (.spawn username cname)) hworld.sock hworld.queue level
          refine ⟨_, finish, hrun, ?_, hready, hasked⟩
          intro event hmem
          simp only [List.mem_cons, List.not_mem_nil, or_false] at hmem
          rcases hmem with rfl | rfl <;> trivial
  | runAction action cname =>
      cases hrequest
      obtain ⟨rendered, hrendered⟩ := hmonitor.2 action cname
      simp only [World.turn, hrendered]
      exact ⟨[], _, .nil _, hnothing, ⟨rfl, hworld.queue, hworld.sock⟩, rfl⟩

/-- The client types the two words. -/
theorem line_run (hworld : Ready world) (hword : Typable word) (hname : Typable cname)
    (hfits : Utf8.cost word.toList + Utf8.cost cname.toList < maxLine) {turn : Turn}
    (hcommand : command rt lower numLe view username [word, cname] = .ok turn)
    (monitor : Monitor) :
    ∃ taken, Ready taken ∧ taken.asked = world.asked ∧
      Run (step rt lower numLe username) world
        [.client (.send (lineOf word cname ++ [0x0d])), .line view monitor]
        (taken.turn username view monitor turn) := by
  have hroom : ([] : List UInt8).length + (lineOf word cname).length ≤ maxLine := by
    rw [List.length_nil, length_lineOf]
    omega
  obtain ⟨hline, hrest⟩ := readline_typed (typed_lineOf hword hname) hroom true []
  rw [List.nil_append] at hline
  have hsend : step rt lower numLe username world
      (.client (.send (lineOf word cname ++ [0x0d]))) =
        some { world with
          channel := { world.channel with queue := lineOf word cname ++ [0x0d] } } := by
    simp [step, ConsoleSession.step, hworld.sock, hworld.queue]
  refine ⟨{ world with
      channel := { world.channel with queue := [] }
      sent := world.sent ++ (sockReadline true maxLine (lineOf word cname ++ [0x0d])).echoed },
    ⟨hworld.phase, rfl, hworld.sock⟩, rfl, .cons hsend (.cons ?_ (.nil _))⟩
  simp only [step, hworld.phase, if_true, sockReadline, hline, hrest,
    parts_lineOf hword.isWord hname.isWord, hcommand]

/-- What the view grants, the client can have asked. -/
theorem ask_run (hlower : LowersConsole lower) (hworld : Ready world)
    (hmonitor : monitor.Returns) {request : Request}
    (hgrants : Grants rt lower view username request) :
    ∃ events finish, Run (step rt lower numLe username) world events finish ∧
      With monitor events ∧ Ready finish ∧ finish.asked = world.asked ++ [(view, request)] := by
  obtain ⟨word, cname, hword, hname, hfits, hasks⟩ := asks_of_grants hlower hgrants
  obtain ⟨turn, hcommand, hrequest⟩ := (@asks_iff rt lower numLe _ _ _ _).mpr hasks
  obtain ⟨taken, hready, hsame, hline⟩ := line_run hworld hword hname hfits hcommand monitor
  obtain ⟨events, finish, hrun, hwith, hback, hasked⟩ :=
    back_of_turn hready hmonitor hrequest
  refine ⟨_, finish, hline.append hrun, .append ?_ hwith, hback, hsame ▸ hasked⟩
  intro event hmem
  simp only [List.mem_cons, List.not_mem_nil, or_false] at hmem
  rcases hmem with rfl | rfl <;> trivial

/-- What has been granted can have been asked, in any order. -/
theorem ask_all_run (hlower : LowersConsole lower) (hmonitor : monitor.Returns)
    {asked : List (View × Request)}
    (hgrants : ∀ entry ∈ asked, Grants rt lower entry.1 username entry.2) (hworld : Ready world) :
    ∃ events finish, Run (step rt lower numLe username) world events finish ∧
      With monitor events ∧ finish.asked = world.asked ++ asked := by
  induction asked generalizing world with
  | nil =>
      exact ⟨[], world, .nil _, fun _ hmem => absurd hmem List.not_mem_nil,
        (List.append_nil _).symm⟩
  | cons entry asked ih =>
      obtain ⟨hentry, hothers⟩ := List.forall_mem_cons.mp hgrants
      obtain ⟨first, middle, hfirst, hwith, hready, hasked⟩ :=
        ask_run hlower hworld hmonitor hentry
      obtain ⟨rest, finish, hrest, hothersWith, hfinish⟩ := ih hothers hready
      refine ⟨first ++ rest, finish, hfirst.append hrest, hwith.append hothersWith, ?_⟩
      rw [hfinish, hasked, List.append_assoc, List.singleton_append]

def asciiLower (word : String) : String := String.ofList (word.toList.map Char.toLower)

theorem lowersConsole_ascii : LowersConsole asciiLower := by
  intro word
  constructor
  · intro h
    have hlist := congrArg String.toList h
    rwa [asciiLower, String.toList_ofList] at hlist
  · intro h
    rw [asciiLower, h, String.ofList_toList]

def labConsoles : PyVal := .ofFields [("consoles", .ofFields [("vm-lab01", .ofFields [
  ("type", .str "exec"), ("cmd", .str "virsh console vm-lab01")])])]

def labView : View := ⟨labConsoles, labUsers, .empty, .empty⟩

end Vnctlsd.Worker.CommandLoop
