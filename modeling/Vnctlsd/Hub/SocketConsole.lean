import Vnctlsd.Hub.Isolation
import Vnctlsd.Hub.LiveHubs

/-! Consoles behind a socket.  Their hub is made by the listener when the socket
appears, and by nothing else; the grace timer takes it down all the same. -/
namespace Vnctlsd.HubWorld
open Function Vnctlsd.Library Vnctlsd.Library.Transition ConsoleHub

/-- A step of the worker; `path` is the socket of the message that the listener
is on, where it is one of its steps. -/
structure Event where
  label : Label
  path : String
  deriving DecidableEq

def eventStep (w : World) (event : Event) : Option World := step w event.label

/-- The socket has not disappeared, and reads and writes on the hub's descriptor
give no end of file and no error.  Nothing in the worker calls `teardown_all`. -/
structure SocketStands (path : String) (i : Nat) (w : World) (event : Event) : Prop where
  present : ∀ name, event.label = .listener (.disappeared name) → event.path ≠ path
  reads : hubAct w event.label ≠ some (i, .read [])
  writes : hubAct w event.label ≠ some (i, .writeFailed)
  running : ∀ act, event.label ≠ .teardown act

/-- Whenever a grace timer of the hub runs out some client is attached, and no
other socket's disappearance is put down to the console. -/
structure StaysInUse (name : String) (i : Nat) (w : World) (event : Event) : Prop where
  occupied : ∀ hub, hubAct w event.label = some (i, .checkGrace) → w.hubs i = some hub →
    isEmpty hub.clients = false
  distinct : event.label ≠ .listener (.disappeared name)

def Attachable (w : World) (name : String) : Prop :=
  ∃ i hub, get w name = some i ∧ w.hubs i = some hub ∧ hub.done = false

structure Running (hub : Hub) : Prop where
  live : hub.done = false
  undoomed : hub.doomed = 0
  reader : hub.reader ≠ .failing

theorem create_running (name : String) (fd file : Nat) : Running (create name fd file) :=
  ⟨rfl, rfl, nofun⟩

/-- Only the end of the console, a call of `shutdown`, or a timer that finds no
client can end a hub. -/
theorem step_running {hub next : Hub} {act : Act} (hrunning : Running hub)
    (hread : act ≠ .read []) (hwrite : act ≠ .writeFailed) (hshutdown : act ≠ .shutdown)
    (hoccupied : act = .checkGrace → isEmpty hub.clients = false)
    (h : ConsoleHub.step hub act = some next) : Running next := by
  obtain ⟨hlive, hundoomed, hreader⟩ := hrunning
  cases act with
  | addClient | removeClient | armGrace =>
      cases h
      exact ⟨hlive, hundoomed, hreader⟩
  | writeFailed => exact absurd rfl hwrite
  | shutdown => exact absurd rfl hshutdown
  | armSpawned | expire | close | timerClose =>
      simp only [ConsoleHub.step] at h
      split at h <;> cases h
      exact ⟨hlive, hundoomed, hreader⟩
  | checkGrace =>
      simp only [ConsoleHub.step, hoccupied rfl, Bool.false_eq_true, if_false] at h
      split at h <;> cases h
      exact ⟨hlive, hundoomed, hreader⟩
  | timerShutdown =>
      simp only [ConsoleHub.step] at h
      split at h
      · omega
      · cases h
  | test =>
      simp only [ConsoleHub.step] at h
      split at h <;> cases h
      refine ⟨hlive, hundoomed, ?_⟩
      simp [hlive]
  | read data =>
      have hdata : data ≠ [] := fun heq => hread (heq ▸ rfl)
      simp only [ConsoleHub.step, if_neg hdata] at h
      split at h <;> cases h
      exact ⟨hlive, hundoomed, by simp⟩
  | broadcast dead =>
      simp only [ConsoleHub.step] at h
      split at h
      · split at h <;> cases h
        exact ⟨hlive, hundoomed, by simp [drop]⟩
      · cases h
  | fail =>
      simp only [ConsoleHub.step, if_neg hreader] at h
      cases h
  | clear | readerClose =>
      simp only [ConsoleHub.step] at h
      split at h <;> cases h
      exact ⟨hlive, hundoomed, by simp⟩

theorem step_listener {w next : World} {label : Label} {j : Nat} {name : String}
    (h : step w label = some next) (hstopping : next.listener = .stopping j name) :
    w.listener = .stopping j name ∨
      label = .listener (.disappeared name) ∧ get w name = some j := by
  obtain ⟨planned, hubStep, hplan, -, -, hsame, -⟩ := step_plan h
  rw [hsame] at hstopping
  cases plan_cases hplan with
  | acquire | release | session | hub | teardown => exact .inl hstopping
  | getOrCreate =>
      refine .inl ?_
      unfold getOrCreate at hstopping
      split at hstopping <;> exact hstopping
  | @listener act found hubStep hfound =>
      have hstopping : found = .stopping j name := hstopping
      subst hstopping
      cases act with
      | disappeared other =>
          simp only [listenerStep] at hfound
          split at hfound
          · obtain ⟨k, hget, heq⟩ := Option.map_eq_some_iff.mp hfound
            cases heq
            exact .inr ⟨rfl, hget⟩
          · cases hfound
      | stop | close =>
          simp only [listenerStep] at hfound
          split at hfound <;> cases hfound
      | remove =>
          simp only [listenerStep] at hfound
          split at hfound
          · split at hfound <;> cases hfound
          · cases hfound

/-- Hub `i` runs on under its name, and the listener is not about to stop it. -/
structure Standing (name : String) (i : Nat) (w : World) : Prop where
  reachable : ∃ labels, Run step initial labels w
  hub : ∃ hub, w.hubs i = some hub ∧ hub.name = name ∧ Running hub
  listener : ∀ other, w.listener ≠ .stopping i other
  unlocked : w.teardown = none

theorem attachable_of_standing {name : String} {i : Nat} {w : World}
    (h : Standing name i w) : Attachable w name := by
  obtain ⟨labels, hrun⟩ := h.reachable
  obtain ⟨hub, hhub, hname, hrunning⟩ := h.hub
  exact ⟨i, hub, (get_eq_some_iff hrun).mpr ⟨hub, hhub, hname, hrunning.live⟩, hhub, hrunning.live⟩

theorem step_teardown {w next : World} {label : Label} (h : step w label = some next)
    (hlabel : ∀ act, label ≠ .teardown act) : next.teardown = w.teardown := by
  obtain ⟨planned, hubStep, hplan, -, -, -, hsame⟩ := step_plan h
  rw [hsame]
  cases plan_cases hplan with
  | getOrCreate =>
      unfold getOrCreate
      split <;> rfl
  | @teardown act => exact absurd rfl (hlabel act)
  | acquire | release | session | hub | listener => rfl

theorem step_standing {name path : String} {i : Nat} (w : World) (event : Event) (next : World)
    (hinv : Standing name i w)
    (hguard : SocketStands path i w event ∧ StaysInUse name i w event)
    (h : eventStep w event = some next) : Standing name i next := by
  obtain ⟨⟨labels, hrun⟩, ⟨hub, hhub, hname, hrunning⟩, hlistener, hunlocked⟩ := hinv
  obtain ⟨hstands, hinUse⟩ := hguard
  have hnext := hrun.append (.cons h (.nil _))
  refine ⟨⟨_, hnext⟩, ?_, ?_, (step_teardown h hstands.running).trans hunlocked⟩
  · rcases core_keeps (step_core h) (fresh_of_run hrun) hhub with
      hsame | ⟨act, hub', hact, hstepped, hhub'⟩
    · exact ⟨hub, hsame, hname, hrunning⟩
    · refine ⟨hub', hhub', (step_frame hstepped).name.trans hname, ?_⟩
      have hshutdown : act ≠ .shutdown := by
        rintro rfl
        generalize hlabel : event.label = label at hact
        cases calls_of_hubAct hact with
        | own hinternal => cases hinternal
        | listenerShutdown hstopping => exact hlistener _ hstopping
        | teardownShutdown => exact hstands.running _ hlabel
      refine step_running hrunning ?_ ?_ hshutdown ?_ hstepped
      · rintro rfl
        exact hstands.reads hact
      · rintro rfl
        exact hstands.writes hact
      · rintro rfl
        exact hinUse.occupied hub hact hhub
  · intro other hstopping
    rcases step_listener h hstopping with hbefore | ⟨hlabel, hget⟩
    · exact hlistener other hbefore
    · -- the listener stops the hub of the name it was given
      obtain ⟨found, hfound, hother, -⟩ := (get_eq_some_iff hrun).mp hget
      rw [hhub] at hfound
      cases hfound
      exact hinUse.distinct (hlabel.trans (by rw [← hother, hname]))

/-- Until its socket disappears a console stays attachable, in every run in which
no grace timer finds its hub empty and no other socket takes its name down. -/
theorem attachable_of_staysInUse {labels : List Label} {w₀ w₁ w : World} {name path : String}
    {file : Nat} {events : List Event} (hbefore : Run step initial labels w₀)
    (hnew : get w₀ name = none) (hcreate : step w₀ (.getOrCreate name file none) = some w₁)
    (hrun : GuardedRun eventStep
      (fun w event => SocketStands path w₀.nextHub w event ∧ StaysInUse name w₀.nextHub w event)
      w₁ events w) : Attachable w name := by
  refine attachable_of_standing (hrun.invariant step_standing ?_)
  have hreach := hbefore.append (.cons hcreate (.nil _))
  simp only [step, plan] at hcreate
  split at hcreate
  · rename_i hready
    obtain ⟨⟨planned, hubStep⟩, hplan, hcreate⟩ := Option.bind_eq_some_iff.mp hcreate
    obtain ⟨n, -, heq⟩ := Option.map_eq_some_iff.mp hplan
    cases heq
    cases hcreate
    simp only [callerReady, decide_eq_true_eq] at hready
    simp only [getOrCreate, hnew] at hreach ⊢
    refine ⟨⟨_, hreach⟩, ⟨_, update_self .., rfl, create_running ..⟩, ?_, hready.1⟩
    intro other hstopping
    rw [hready.2] at hstopping
    cases hstopping
  · cases hcreate

/-- A session attaches and console output reaches it. -/
def attendedRun : List Event :=
  [.session "s1" (.attach "lab01" false), .session "s1" .addClient, .hub 0 .test,
    .hub 0 (.read [0x42]), .hub 0 (.broadcast [])].map fun label => ⟨label, ""⟩

theorem attachable_attendedRun :
    ∃ w₀ w₁ w, exec step initial [.acquire 5] = some w₀ ∧
      step w₀ (.getOrCreate "lab01" 0 none) = some w₁ ∧
      exec eventStep w₁ attendedRun = some w ∧ Attachable w "lab01" := by
  have hquiet : ∀ {w event}, (∀ act, event.label ≠ .listener act) →
      (∀ act, event.label ≠ .teardown act) →
      (∀ act, hubAct w event.label = some (0, act) → act ≠ .read [] ∧ act ≠ .writeFailed ∧
        act ≠ .checkGrace) →
      SocketStands "lab01.sock" 0 w event ∧ StaysInUse "lab01" 0 w event := by
    intro w event hlistener hteardown hact
    refine ⟨⟨?_, ?_, ?_, hteardown⟩, ⟨?_, hlistener _⟩⟩
    · exact fun name hlabel => absurd hlabel (hlistener _)
    · exact fun h => (hact _ h).1 rfl
    · exact fun h => (hact _ h).2.1 rfl
    · exact fun hub h => absurd rfl (hact _ h).2.2
  have hrun : ∃ w₀ w₁ w, exec step initial [.acquire 5] = some w₀ ∧
      step w₀ (.getOrCreate "lab01" 0 none) = some w₁ ∧ get w₀ "lab01" = none ∧
      w₀.nextHub = 0 ∧ exec eventStep w₁ attendedRun = some w ∧
      GuardedRun eventStep (fun w event =>
        SocketStands "lab01.sock" 0 w event ∧ StaysInUse "lab01" 0 w event) w₁ attendedRun w := by
    refine ⟨_, _, _, rfl, rfl, rfl, rfl, rfl, .cons (hquiet nofun nofun ?_) rfl <|
      .cons (hquiet nofun nofun ?_) rfl <| .cons (hquiet nofun nofun ?_) rfl <|
      .cons (hquiet nofun nofun ?_) rfl <| .cons (hquiet nofun nofun ?_) rfl <| .nil _⟩
    all_goals
      intro act hact
      cases hact
    all_goals exact ⟨nofun, nofun, nofun⟩
  obtain ⟨w₀, w₁, w, hbefore, hcreate, hnew, hzero, hexec, hrun⟩ := hrun
  exact ⟨w₀, w₁, w, hbefore, hcreate, hexec,
    attachable_of_staysInUse (run_of_exec hbefore) hnew hcreate (hzero ▸ hrun)⟩

/-- Boot output with nobody attached, and the grace period after it. -/
def unattendedRun : List Event :=
  [.hub 0 .test, .hub 0 (.read [0x42]), .hub 0 (.broadcast []), .hub 0 .armSpawned,
    .hub 0 (.expire 0), .hub 0 .checkGrace, .hub 0 .timerShutdown].map fun label => ⟨label, ""⟩

/-- The socket is still there, and nothing will connect to it again. -/
theorem unattendedRun_not_attachable :
    ∃ w₀ w₁ w, exec step initial [.acquire 5] = some w₀ ∧ get w₀ "lab01" = none ∧
      step w₀ (.getOrCreate "lab01" 0 none) = some w₁ ∧
      GuardedRun eventStep (SocketStands "lab01.sock" w₀.nextHub) w₁ unattendedRun w ∧
      ¬ Attachable w "lab01" := by
  have hown : ∀ {w act}, act.internal = true → act ≠ .read [] →
      SocketStands "lab01.sock" 0 w ⟨.hub 0 act, ""⟩ := by
    intro w act hinternal hread
    have hact : hubAct w (.hub 0 act) = some (0, act) := by
      simp [hubAct, plan, hinternal]
    refine ⟨by simp, ?_, ?_, by simp⟩
    · simpa [hact] using hread
    · rw [hact]
      rintro ⟨⟩
      cases hinternal
  refine ⟨_, _, _, rfl, rfl, rfl, .cons (hown rfl (by simp)) rfl <|
    .cons (hown rfl (by simp)) rfl <| .cons (hown rfl (by simp)) rfl <|
    .cons (hown rfl (by simp)) rfl <| .cons (hown rfl (by simp)) rfl <|
    .cons (hown rfl (by simp)) rfl <| .cons (hown rfl (by simp)) rfl <| .nil _, ?_⟩
  rintro ⟨i, hub, hget, -⟩
  cases hget

end Vnctlsd.HubWorld
