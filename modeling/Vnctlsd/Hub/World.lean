import Vnctlsd.Library.Transition
import Vnctlsd.Hub.ConsoleHub
import Vnctlsd.Worker.ConsoleSession

/-! The worker's threads around its hubs: client sessions, the push listener and
`teardown_all`, over one hub registry and one table of descriptors.  The
operating system may hand a closed number out again at once. -/
namespace Vnctlsd.HubWorld
open Function Vnctlsd.Library ConsoleHub Worker.ConsoleSession

/-- Where a session thread is.  `testing` is at `while not hub.is_done`,
`receiving` inside `sock.recv`, `writing` before `hub.write_input`. -/
inductive Pc where
  | prompt
  | attaching (hub : Nat)
  | testing (hub : Nat)
  | receiving (hub : Nat)
  | writing (hub : Nat) (data : List UInt8) (detach : Bool)
  | removing (hub : Nat)
  | arming (hub : Nat)
  | leaving
  deriving DecidableEq

structure Thread where
  readOnly : Bool
  escape : Bool
  console : String
  pc : Pc
  deriving DecidableEq

inductive Listener where
  | idle
  | stopping (hub : Nat) (name : String)
  | closing (hub : Nat) (name : String)
  | removing (name : String)
  deriving DecidableEq

/-- `fds` gives the open file behind a number, `held` the number that code other
than a hub holds for a file.  While `teardown` is set, `teardown_all` has the
registry's lock: the hubs it has yet to close, and whether the first of them is
signalled already. -/
structure World where
  fds : Nat → Option Nat
  held : Nat → Option Nat
  nextFile : Nat
  hubs : Nat → Option Hub
  nextHub : Nat
  registry : Dict String Nat
  threads : String → Thread
  listener : Listener
  teardown : Option (List Nat × Bool)

def initial : World where
  fds := fun _ => none
  held := fun _ => none
  nextFile := 0
  hubs := fun _ => none
  nextHub := 0
  registry := .empty
  threads := fun _ => ⟨false, false, "", .prompt⟩
  listener := .idle
  teardown := none

inductive SessionAct where
  | attach (name : String) (readOnly : Bool)
  | abandon
  | addClient
  | testDone
  | recv (data : List UInt8)
  | recvEnd
  | writeInput (accepted : Bool)
  | removeClient
  | armGrace
  | leave
  deriving DecidableEq

inductive ListenerAct where
  | disappeared (name : String)
  | stop
  | close
  | remove
  deriving DecidableEq

inductive TeardownAct where
  | enter
  | stop
  | close
  | leave
  deriving DecidableEq

inductive Label where
  | acquire (n : Nat)
  | release (file : Nat)
  | getOrCreate (name : String) (file : Nat) (caller : Option (String × Bool))
  | session (sid : String) (act : SessionAct)
  | hub (i : Nat) (act : Act)
  | listener (act : ListenerAct)
  | teardown (act : TeardownAct)
  deriving DecidableEq

def get (w : World) (name : String) : Option Nat := do
  let i ← w.registry.get? name
  let hub ← w.hubs i
  if hub.done then none else some i

def removeIfDone (w : World) (name : String) : Dict String Nat :=
  match (w.registry.get? name).bind w.hubs with
  | some hub => if hub.done then w.registry.erase name else w.registry
  | none => w.registry

abbrev Plan (α : Type) := Option (α × Option (Nat × Act))

def afterWrite (hub : Nat) (detach : Bool) : Pc :=
  if detach then .removing hub else .testing hub

def received (hub : Nat) (thread : Thread) (data : List UInt8) : Thread :=
  if thread.readOnly then { thread with pc := .testing hub }
  else
    let decoded := decode thread.escape [] data
    { thread with
      escape := decoded.escape
      pc := if decoded.out = [] then afterWrite hub decoded.detached
        else .writing hub decoded.out decoded.detached }

def sessionStep (w : World) (sid : String) (thread : Thread) : SessionAct → Plan Thread
  | .attach name readOnly =>
      if thread.pc = .prompt ∧ w.teardown = none then
        (get w name).map fun i => (⟨readOnly, false, name, .attaching i⟩, none)
      else none
  | .abandon =>
      match thread.pc with
      | .attaching _ => some ({ thread with pc := .prompt }, none)
      | _ => none
  | .addClient =>
      match thread.pc with
      | .attaching i =>
          some ({ thread with pc := .testing i }, some (i, .addClient sid thread.readOnly))
      | _ => none
  | .testDone =>
      match thread.pc with
      | .testing i => (w.hubs i).map fun hub =>
          ({ thread with pc := if hub.done then .removing i else .receiving i }, none)
      | _ => none
  | .recv data =>
      match thread.pc with
      | .receiving i =>
          if data ≠ [] ∧ data.length ≤ 4096 then some (received i thread data, none) else none
      | _ => none
  | .recvEnd =>
      match thread.pc with
      | .receiving i => some ({ thread with pc := .removing i }, none)
      | _ => none
  | .writeInput accepted =>
      -- a number that is not open gives `EBADF`, as `accepted = false` any other error
      match thread.pc with
      | .writing i _ detach => (w.hubs i).map fun hub =>
          ({ thread with pc := afterWrite i detach },
            if accepted ∧ (w.fds hub.fd).isSome then none else some (i, .writeFailed))
      | _ => none
  | .removeClient =>
      match thread.pc with
      | .removing i => (w.hubs i).map fun hub =>
          ({ thread with
              pc := if isEmpty (hub.clients.erase sid) then .arming i else .leaving },
            some (i, .removeClient sid))
      | _ => none
  | .armGrace =>
      match thread.pc with
      | .arming i => some ({ thread with pc := .leaving }, some (i, .armGrace))
      | _ => none
  | .leave =>
      if thread.pc = .leaving ∧ w.teardown = none then
        some ({ thread with pc := .prompt }, none)
      else none

def listenerStep (w : World) : ListenerAct → Plan Listener
  | .disappeared name =>
      if w.listener = .idle ∧ w.teardown = none then
        (get w name).map fun i => (.stopping i name, none)
      else none
  | .stop =>
      match w.listener with
      | .stopping i name => some (.closing i name, some (i, .shutdown))
      | _ => none
  | .close =>
      match w.listener with
      | .closing i name => some (.removing name, some (i, .close))
      | _ => none
  | .remove =>
      match w.listener with
      | .removing _ => if w.teardown = none then some (.idle, none) else none
      | _ => none

def teardownStep (w : World) : TeardownAct → Plan (Option (List Nat × Bool))
  | .enter =>
      if w.teardown = none then some (some (w.registry.entries.map Prod.snd, false), none)
      else none
  | .stop =>
      match w.teardown with
      | some (i :: rest, false) => some (some (i :: rest, true), some (i, .shutdown))
      | _ => none
  | .close =>
      match w.teardown with
      | some (i :: rest, true) => some (some (rest, false), some (i, .close))
      | _ => none
  | .leave =>
      match w.teardown with
      | some ([], _) => some (none, none)
      | _ => none

def registryAfter (w : World) : Label → Dict String Nat
  | .session sid .leave => removeIfDone w (w.threads sid).console
  | .listener .remove =>
      match w.listener with
      | .removing name => removeIfDone w name
      | _ => w.registry
  | .teardown .leave => .empty
  | _ => w.registry

def enter (threads : String → Thread) (caller : Option (String × Bool)) (name : String)
    (i : Nat) : String → Thread :=
  match caller with
  | none => threads
  | some (sid, readOnly) => update threads sid ⟨readOnly, false, name, .attaching i⟩

/-- Without a caller it is the listener that has been told of a socket. -/
def callerReady (w : World) : Option (String × Bool) → Bool
  | none => decide (w.listener = .idle)
  | some (sid, _) => decide ((w.threads sid).pc = .prompt)

/-- `HubRegistry.get_or_create`: a live hub keeps its descriptor and the one that
was brought along is closed; otherwise a new hub takes it over. -/
def getOrCreate (w : World) (name : String) (file n : Nat)
    (caller : Option (String × Bool)) : World :=
  match get w name with
  | some i => { w with
      fds := update w.fds n none
      held := update w.held file none
      threads := enter w.threads caller name i }
  | none => { w with
      held := update w.held file none
      hubs := update w.hubs w.nextHub (some (create name n file))
      nextHub := w.nextHub + 1
      registry := w.registry.set name w.nextHub
      threads := enter w.threads caller name w.nextHub }

def plan (w : World) (label : Label) : Plan World :=
  match label with
  | .acquire n =>
      if w.fds n = none then
        some ({ w with
          fds := update w.fds n (some w.nextFile)
          held := update w.held w.nextFile (some n)
          nextFile := w.nextFile + 1 }, none)
      else none
  | .release file => (w.held file).map fun n =>
      ({ w with fds := update w.fds n none, held := update w.held file none }, none)
  | .getOrCreate name file caller =>
      if w.teardown = none ∧ callerReady w caller then
        (w.held file).map fun n => (getOrCreate w name file n caller, none)
      else none
  | .session sid act => (sessionStep w sid (w.threads sid) act).map fun next =>
      ({ w with
          threads := update w.threads sid next.1
          registry := registryAfter w label }, next.2)
  | .hub i act => if act.internal then some (w, some (i, act)) else none
  | .listener act => (listenerStep w act).map fun next =>
      ({ w with listener := next.1, registry := registryAfter w label }, next.2)
  | .teardown act => (teardownStep w act).map fun next =>
      ({ w with teardown := next.1, registry := registryAfter w label }, next.2)

/-- A step on one hub; a close frees the number whatever it stands for by then. -/
def onHub (w : World) (i : Nat) (act : Act) : Option World := do
  let hub ← w.hubs i
  let next ← ConsoleHub.step hub act
  some { w with
    hubs := update w.hubs i (some next)
    fds := if act.closes then update w.fds hub.fd none else w.fds }

def step (w : World) (label : Label) : Option World :=
  (plan w label).bind fun next =>
    match next.2 with
    | none => some next.1
    | some (i, act) => onHub next.1 i act

def hubAct (w : World) (label : Label) : Option (Nat × Act) := (plan w label).bind Prod.snd

/-- What a session's step comes to, by the statement it stands at. -/
inductive SessionMove (w : World) (sid : String) (thread : Thread) :
    SessionAct → Thread → Option (Nat × Act) → Prop where
  | attach {name : String} {readOnly : Bool} {i : Nat} : thread.pc = .prompt →
      w.teardown = none → get w name = some i →
      SessionMove w sid thread (.attach name readOnly) ⟨readOnly, false, name, .attaching i⟩ none
  | abandon {i : Nat} : thread.pc = .attaching i →
      SessionMove w sid thread .abandon { thread with pc := .prompt } none
  | addClient {i : Nat} : thread.pc = .attaching i →
      SessionMove w sid thread .addClient { thread with pc := .testing i }
        (some (i, .addClient sid thread.readOnly))
  | testDone {i : Nat} {hub : Hub} : thread.pc = .testing i → w.hubs i = some hub →
      SessionMove w sid thread .testDone
        { thread with pc := if hub.done then .removing i else .receiving i } none
  | recv {i : Nat} {data : List UInt8} : thread.pc = .receiving i → data ≠ [] →
      data.length ≤ 4096 → SessionMove w sid thread (.recv data) (received i thread data) none
  | recvEnd {i : Nat} : thread.pc = .receiving i →
      SessionMove w sid thread .recvEnd { thread with pc := .removing i } none
  | writeInput {i : Nat} {data : List UInt8} {detach accepted : Bool} {hub : Hub} :
      thread.pc = .writing i data detach → w.hubs i = some hub →
      SessionMove w sid thread (.writeInput accepted) { thread with pc := afterWrite i detach }
        (if accepted ∧ (w.fds hub.fd).isSome then none else some (i, .writeFailed))
  | removeClient {i : Nat} {hub : Hub} : thread.pc = .removing i → w.hubs i = some hub →
      SessionMove w sid thread .removeClient
        { thread with pc := if isEmpty (hub.clients.erase sid) then .arming i else .leaving }
        (some (i, .removeClient sid))
  | armGrace {i : Nat} : thread.pc = .arming i →
      SessionMove w sid thread .armGrace { thread with pc := .leaving } (some (i, .armGrace))
  | leave : thread.pc = .leaving → w.teardown = none →
      SessionMove w sid thread .leave { thread with pc := .prompt } none

theorem sessionStep_cases {w : World} {sid : String} {thread next : Thread} {act : SessionAct}
    {hubStep : Option (Nat × Act)} (h : sessionStep w sid thread act = some (next, hubStep)) :
    SessionMove w sid thread act next hubStep := by
  cases act with
  | attach name readOnly =>
      simp only [sessionStep] at h
      split at h
      · rename_i hready
        obtain ⟨i, hget, heq⟩ := Option.map_eq_some_iff.mp h
        cases heq
        exact .attach hready.1 hready.2 hget
      · cases h
  | abandon =>
      simp only [sessionStep] at h
      split at h <;> cases h
      exact .abandon ‹_›
  | addClient =>
      simp only [sessionStep] at h
      split at h <;> cases h
      exact .addClient ‹_›
  | testDone =>
      simp only [sessionStep] at h
      split at h
      · rename_i hpc
        obtain ⟨hub, hhub, heq⟩ := Option.map_eq_some_iff.mp h
        cases heq
        exact .testDone hpc hhub
      · cases h
  | recv data =>
      simp only [sessionStep] at h
      split at h
      · rename_i hpc
        split at h <;> cases h
        rename_i hdata
        exact .recv hpc hdata.1 hdata.2
      · cases h
  | recvEnd =>
      simp only [sessionStep] at h
      split at h <;> cases h
      exact .recvEnd ‹_›
  | writeInput accepted =>
      simp only [sessionStep] at h
      split at h
      · rename_i hpc
        obtain ⟨hub, hhub, heq⟩ := Option.map_eq_some_iff.mp h
        cases heq
        exact .writeInput hpc hhub
      · cases h
  | removeClient =>
      simp only [sessionStep] at h
      split at h
      · rename_i hpc
        obtain ⟨hub, hhub, heq⟩ := Option.map_eq_some_iff.mp h
        cases heq
        exact .removeClient hpc hhub
      · cases h
  | armGrace =>
      simp only [sessionStep] at h
      split at h <;> cases h
      exact .armGrace ‹_›
  | leave =>
      simp only [sessionStep] at h
      split at h <;> cases h
      rename_i hready
      exact .leave hready.1 hready.2

/-- What `plan` comes to, by the label. -/
inductive Planned (w : World) : Label → World → Option (Nat × Act) → Prop where
  | acquire {n : Nat} : w.fds n = none →
      Planned w (.acquire n) { w with
        fds := update w.fds n (some w.nextFile)
        held := update w.held w.nextFile (some n)
        nextFile := w.nextFile + 1 } none
  | release {file n : Nat} : w.held file = some n →
      Planned w (.release file)
        { w with fds := update w.fds n none, held := update w.held file none } none
  | getOrCreate {name : String} {file n : Nat} {caller : Option (String × Bool)} :
      w.teardown = none → callerReady w caller = true → w.held file = some n →
      Planned w (.getOrCreate name file caller) (getOrCreate w name file n caller) none
  | session {sid : String} {act : SessionAct} {next : Thread} {hubStep : Option (Nat × Act)} :
      sessionStep w sid (w.threads sid) act = some (next, hubStep) →
      Planned w (.session sid act) { w with
        threads := update w.threads sid next
        registry := registryAfter w (.session sid act) } hubStep
  | hub {i : Nat} {act : Act} : act.internal = true → Planned w (.hub i act) w (some (i, act))
  | listener {act : ListenerAct} {next : Listener} {hubStep : Option (Nat × Act)} :
      listenerStep w act = some (next, hubStep) →
      Planned w (.listener act) { w with
        listener := next
        registry := registryAfter w (.listener act) } hubStep
  | teardown {act : TeardownAct} {next : Option (List Nat × Bool)}
      {hubStep : Option (Nat × Act)} : teardownStep w act = some (next, hubStep) →
      Planned w (.teardown act) { w with
        teardown := next
        registry := registryAfter w (.teardown act) } hubStep

theorem plan_cases {w planned : World} {label : Label} {hubStep : Option (Nat × Act)}
    (h : plan w label = some (planned, hubStep)) : Planned w label planned hubStep := by
  cases label with
  | acquire n =>
      simp only [plan] at h
      split at h <;> cases h
      exact .acquire ‹_›
  | release file =>
      obtain ⟨n, hheld, heq⟩ := Option.map_eq_some_iff.mp h
      cases heq
      exact .release hheld
  | getOrCreate name file caller =>
      simp only [plan] at h
      split at h
      · rename_i hready
        obtain ⟨n, hheld, heq⟩ := Option.map_eq_some_iff.mp h
        cases heq
        exact .getOrCreate hready.1 hready.2 hheld
      · cases h
  | session sid act =>
      obtain ⟨found, hfound, heq⟩ := Option.map_eq_some_iff.mp h
      cases heq
      exact .session hfound
  | hub i act =>
      simp only [plan] at h
      split at h <;> cases h
      exact .hub ‹_›
  | listener act =>
      obtain ⟨found, hfound, heq⟩ := Option.map_eq_some_iff.mp h
      cases heq
      exact .listener hfound
  | teardown act =>
      obtain ⟨found, hfound, heq⟩ := Option.map_eq_some_iff.mp h
      cases heq
      exact .teardown hfound

/-- What one step does to the table and the hubs, by the step it takes on a hub. -/
inductive Core (w next : World) : Option (Nat × Act) → Prop where
  | idle (fds : next.fds = w.fds) (held : next.held = w.held) (hubs : next.hubs = w.hubs)
      (nextHub : next.nextHub = w.nextHub) : Core w next none
  | acquire (n : Nat) (free : w.fds n = none)
      (fds : next.fds = update w.fds n (some w.nextFile))
      (held : next.held = update w.held w.nextFile (some n)) (hubs : next.hubs = w.hubs)
      (nextHub : next.nextHub = w.nextHub) : Core w next none
  | release (file n : Nat) (holds : w.held file = some n) (fds : next.fds = update w.fds n none)
      (held : next.held = update w.held file none) (hubs : next.hubs = w.hubs)
      (nextHub : next.nextHub = w.nextHub) : Core w next none
  | create (name : String) (file n : Nat) (holds : w.held file = some n)
      (fds : next.fds = w.fds) (held : next.held = update w.held file none)
      (hubs : next.hubs = update w.hubs w.nextHub (some (create name n file)))
      (nextHub : next.nextHub = w.nextHub + 1) : Core w next none
  | hub (i : Nat) (act : Act) (hub hub' : Hub) (here : w.hubs i = some hub)
      (stepped : ConsoleHub.step hub act = some hub')
      (fds : next.fds = if act.closes then update w.fds hub.fd none else w.fds)
      (held : next.held = w.held) (hubs : next.hubs = update w.hubs i (some hub'))
      (nextHub : next.nextHub = w.nextHub) : Core w next (some (i, act))

/-- The part of a step before its hub; a step with a hub to come leaves the
table and the hubs alone so far. -/
theorem plan_core {w next : World} {label : Label} {act : Option (Nat × Act)}
    (h : plan w label = some (next, act)) :
    Core w next none ∧ (act.isSome = true → next.fds = w.fds ∧ next.held = w.held ∧
      next.hubs = w.hubs ∧ next.nextHub = w.nextHub) := by
  cases plan_cases h with
  | acquire hfree => exact ⟨.acquire _ hfree rfl rfl rfl rfl, nofun⟩
  | release hheld => exact ⟨.release _ _ hheld rfl rfl rfl rfl, nofun⟩
  | @getOrCreate name file n caller hopen hready hheld =>
      refine ⟨?_, nofun⟩
      cases hget : get w name with
      | some i =>
          simp only [getOrCreate, hget]
          exact .release file n hheld rfl rfl rfl rfl
      | none =>
          simp only [getOrCreate, hget]
          exact .create name file n hheld rfl rfl rfl rfl
  | session | hub | listener | teardown =>
      exact ⟨.idle rfl rfl rfl rfl, fun _ => ⟨rfl, rfl, rfl, rfl⟩⟩

theorem onHub_spec {w next : World} {i : Nat} {act : Act} (h : onHub w i act = some next) :
    ∃ hub hub', w.hubs i = some hub ∧ ConsoleHub.step hub act = some hub' ∧
      next = { w with
        hubs := update w.hubs i (some hub')
        fds := if act.closes then update w.fds hub.fd none else w.fds } := by
  obtain ⟨hub, hhub, h⟩ := Option.bind_eq_some_iff.mp h
  obtain ⟨hub', hstep, h⟩ := Option.bind_eq_some_iff.mp h
  exact ⟨hub, hub', hhub, hstep, (Option.some.inj h).symm⟩

theorem step_core {w next : World} {label : Label} (h : step w label = some next) :
    Core w next (hubAct w label) := by
  obtain ⟨⟨planned, act⟩, hplan, h⟩ := Option.bind_eq_some_iff.mp h
  have hact : hubAct w label = act := by rw [hubAct, hplan]; rfl
  obtain ⟨hcore, hframe⟩ := plan_core hplan
  rw [hact]
  cases act with
  | none =>
      cases h
      exact hcore
  | some found =>
      obtain ⟨i, act⟩ := found
      obtain ⟨hfds, hheld, hhubs, hnext⟩ := hframe rfl
      obtain ⟨hub, hub', hhub, hstep, rfl⟩ := onHub_spec h
      exact .hub i act hub hub' (hhubs ▸ hhub) hstep (by simp only [hfds]) hheld
        (by simp only [hhubs]) hnext

/-- A step on a hub leaves what `plan` has done to everything else. -/
theorem step_plan {w next : World} {label : Label} (h : step w label = some next) :
    ∃ planned hubStep, plan w label = some (planned, hubStep) ∧ hubAct w label = hubStep ∧
      next.threads = planned.threads ∧ next.listener = planned.listener ∧
      next.teardown = planned.teardown := by
  obtain ⟨⟨planned, hubStep⟩, hplan, h⟩ := Option.bind_eq_some_iff.mp h
  refine ⟨planned, hubStep, hplan, by rw [hubAct, hplan]; rfl, ?_⟩
  cases hubStep with
  | none =>
      cases h
      exact ⟨rfl, rfl, rfl⟩
  | some found =>
      obtain ⟨hub, hub', -, -, rfl⟩ := onHub_spec h
      exact ⟨rfl, rfl, rfl⟩

/-- A thread moves by its own steps, and by the `get_or_create` it calls. -/
theorem step_thread {w next : World} {label : Label} (h : step w label = some next)
    (sid : String) : next.threads sid = w.threads sid ∨
      (∃ name file readOnly i, label = .getOrCreate name file (some (sid, readOnly)) ∧
        (w.threads sid).pc = .prompt ∧
        next.threads sid = ⟨readOnly, false, name, .attaching i⟩) ∨
      ∃ act, label = .session sid act ∧
        sessionStep w sid (w.threads sid) act = some (next.threads sid, hubAct w label) := by
  obtain ⟨planned, hubStep, hplan, hact, hsame, -, -⟩ := step_plan h
  rw [hsame, hact]
  cases plan_cases hplan with
  | @getOrCreate name file n caller hopen hready hheld =>
      have henter : ∃ i, (getOrCreate w name file n caller).threads =
          enter w.threads caller name i := by
        unfold getOrCreate
        split <;> exact ⟨_, rfl⟩
      obtain ⟨i, henter⟩ := henter
      rw [henter]
      cases caller with
      | none => exact .inl rfl
      | some caller =>
          obtain ⟨other, readOnly⟩ := caller
          by_cases hsid : sid = other
          · subst hsid
            rw [enter, update_self]
            exact .inr (.inl ⟨name, file, readOnly, i, rfl, of_decide_eq_true hready, rfl⟩)
          · rw [enter, update_of_ne hsid]
            exact .inl rfl
  | @session other act moved hubStep hsession =>
      by_cases hsid : sid = other
      · subst hsid
        simp only [update_self]
        exact .inr (.inr ⟨act, rfl, hsession⟩)
      · exact .inl (update_of_ne hsid _ _)
  | acquire | release | hub | listener | teardown => exact .inl rfl

/-- Who takes which step on a hub. -/
inductive Calls (w : World) : Label → Nat → Act → Prop where
  | own {i : Nat} {act : Act} : act.internal = true → Calls w (.hub i act) i act
  | addClient {sid : String} {i : Nat} : (w.threads sid).pc = .attaching i →
      Calls w (.session sid .addClient) i (.addClient sid (w.threads sid).readOnly)
  | writeFailed {sid : String} {i : Nat} {data : List UInt8} {detach accepted : Bool} :
      (w.threads sid).pc = .writing i data detach →
      Calls w (.session sid (.writeInput accepted)) i .writeFailed
  | removeClient {sid : String} {i : Nat} : (w.threads sid).pc = .removing i →
      Calls w (.session sid .removeClient) i (.removeClient sid)
  | armGrace {sid : String} {i : Nat} : (w.threads sid).pc = .arming i →
      Calls w (.session sid .armGrace) i .armGrace
  | listenerShutdown {i : Nat} {name : String} : w.listener = .stopping i name →
      Calls w (.listener .stop) i .shutdown
  | listenerClose {i : Nat} {name : String} : w.listener = .closing i name →
      Calls w (.listener .close) i .close
  | teardownShutdown {i : Nat} {rest : List Nat} : w.teardown = some (i :: rest, false) →
      Calls w (.teardown .stop) i .shutdown
  | teardownClose {i : Nat} {rest : List Nat} : w.teardown = some (i :: rest, true) →
      Calls w (.teardown .close) i .close

theorem calls_of_sessionStep {w : World} {sid : String} {sact : SessionAct} {next : Thread}
    {i : Nat} {act : Act}
    (h : sessionStep w sid (w.threads sid) sact = some (next, some (i, act))) :
    Calls w (.session sid sact) i act := by
  generalize hcall : some (i, act) = hubStep at h
  cases sessionStep_cases h with
  | addClient hpc =>
      cases hcall
      exact .addClient hpc
  | writeInput hpc hhub =>
      split at hcall <;> cases hcall
      exact .writeFailed hpc
  | removeClient hpc hhub =>
      cases hcall
      exact .removeClient hpc
  | armGrace hpc =>
      cases hcall
      exact .armGrace hpc
  | attach | abandon | testDone | recv | recvEnd | leave => cases hcall

theorem calls_of_hubAct {w : World} {label : Label} {i : Nat} {act : Act}
    (h : hubAct w label = some (i, act)) : Calls w label i act := by
  obtain ⟨⟨planned, hubStep⟩, hplan, rfl⟩ := Option.bind_eq_some_iff.mp h
  generalize hcall : some (i, act) = hubStep at hplan
  cases plan_cases hplan with
  | acquire | release | getOrCreate => cases hcall
  | session hsession =>
      rw [← hcall] at hsession
      exact calls_of_sessionStep hsession
  | hub hinternal =>
      cases hcall
      exact .own hinternal
  | @listener lact _ _ hfound =>
      rw [← hcall] at hfound
      cases lact with
      | disappeared name =>
          simp only [listenerStep] at hfound
          split at hfound
          · obtain ⟨j, -, heq⟩ := Option.map_eq_some_iff.mp hfound
            cases heq
          · cases hfound
      | stop =>
          simp only [listenerStep] at hfound
          split at hfound <;> cases hfound
          exact .listenerShutdown ‹_›
      | close =>
          simp only [listenerStep] at hfound
          split at hfound <;> cases hfound
          exact .listenerClose ‹_›
      | remove =>
          simp only [listenerStep] at hfound
          split at hfound
          · split at hfound <;> cases hfound
          · cases hfound
  | @teardown tact _ _ hfound =>
      rw [← hcall] at hfound
      cases tact with
      | enter | leave =>
          simp only [teardownStep] at hfound
          split at hfound <;> cases hfound
      | stop =>
          simp only [teardownStep] at hfound
          split at hfound <;> cases hfound
          exact .teardownShutdown ‹_›
      | close =>
          simp only [teardownStep] at hfound
          split at hfound <;> cases hfound
          exact .teardownClose ‹_›

end Vnctlsd.HubWorld
