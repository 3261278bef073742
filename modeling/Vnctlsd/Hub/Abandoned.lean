import Mathlib.Algebra.Order.Field.Rat
import Mathlib.Tactic.Linarith
import Vnctlsd.Hub.Grace
import Vnctlsd.Hub.LiveHubs

/-! Spawned consoles that nobody is attached to, with the clock.  What must not
be left behind is a process whose hub no thread will look at again in time. -/
namespace Vnctlsd.HubWorld
open Function Vnctlsd.Library Vnctlsd.Library.Transition ConsoleHub

/-- `since` is the later of a hub's creation and the moment its client set last
became empty, `deadline` when a hub's timer is to run out, and `spawned` the
hubs that a session made for a process of its own. -/
structure Timed where
  world : World
  now : ℚ
  since : Nat → ℚ
  deadline : Nat → Nat → ℚ
  spawned : Nat → Bool

def Timed.initial : Timed where
  world := HubWorld.initial
  now := 0
  since := fun _ => 0
  deadline := fun _ _ => 0
  spawned := fun _ => false

inductive TimedLabel where
  | pass (time : ℚ)
  | act (label : Label)

def sinceAfter (t : Timed) (next : World) (i : Nat) : ℚ :=
  match t.world.hubs i, next.hubs i with
  | none, some _ => t.now
  | some before, some after =>
      if !isEmpty before.clients && isEmpty after.clients then t.now else t.since i
  | _, none => t.since i

def setsTimer (w : World) (label : Label) (i timer : Nat) : Bool :=
  match hubAct w label, w.hubs i with
  | some (j, act), some hub => j == i && act.arms && timer == hub.nextTimer
  | _, _ => false

def deadlineAfter (grace : ℚ) (t : Timed) (label : Label) (i timer : Nat) : ℚ :=
  if setsTimer t.world label i timer then t.now + grace else t.deadline i timer

/-- A hub that the listener makes has no process behind it. -/
def spawnedAfter (t : Timed) (label : Label) (i : Nat) : Bool :=
  match label with
  | .getOrCreate name _ caller =>
      if (get t.world name).isNone ∧ i = t.world.nextHub then caller.isSome else t.spawned i
  | _ => t.spawned i

/-- `threading.Timer` waits its interval at least. -/
def onTime (t : Timed) : Label → Bool
  | .hub i (.expire timer) => t.deadline i timer ≤ t.now
  | _ => true

def timedStep (grace : ℚ) (t : Timed) : TimedLabel → Option Timed
  | .pass time => if 0 ≤ time then some { t with now := t.now + time } else none
  | .act label =>
      if onTime t label then
        (step t.world label).map fun next =>
          { t with
            world := next
            since := sinceAfter t next
            deadline := deadlineAfter grace t label
            spawned := spawnedAfter t label }
      else none

theorem timedStep_act {grace : ℚ} {t next : Timed} {label : Label}
    (h : timedStep grace t (.act label) = some next) :
    ∃ world, step t.world label = some world ∧ next = { t with
      world := world
      since := sinceAfter t world
      deadline := deadlineAfter grace t label
      spawned := spawnedAfter t label } := by
  simp only [timedStep] at h
  split at h
  · obtain ⟨world, hstep, heq⟩ := Option.map_eq_some_iff.mp h
    exact ⟨world, hstep, heq.symm⟩
  · cases h

def PendingThread (w : World) (i : Nat) (sid : String) : Prop :=
  (w.threads sid).pc = .attaching i ∨ (w.threads sid).pc = .arming i

/-- A thread is still to add a client or to arm the timer. -/
def Pending (w : World) (i : Nat) (hub : Hub) : Prop :=
  (∃ sid, PendingThread w i sid) ∨ 0 < hub.armers

/-- A timer runs out within the grace period, or has run out and is in `_teardown`. -/
def ArmedInTime (grace : ℚ) (t : Timed) (i : Nat) (hub : Hub) : Prop :=
  (∃ timer ∈ hub.waiting, t.deadline i timer ≤ t.since i + grace) ∨
    (0 < hub.expired ∨ 0 < hub.doomed) ∧
      ∀ timer < hub.nextTimer, t.deadline i timer ≤ t.since i + grace

def NotAbandoned (grace : ℚ) (t : Timed) : Prop :=
  ∀ i hub, t.spawned i = true → t.world.hubs i = some hub → hub.done = false →
    isEmpty hub.clients = true → Pending t.world i hub ∨ ArmedInTime grace t i hub

/-- A timer is armed on a hub without clients only at the moment it has come to
have none. -/
def ArmsAtOnce (t : Timed) (label : Label) : Prop :=
  ∀ i act hub, hubAct t.world label = some (i, act) → act.arms = true → t.spawned i = true →
    t.world.hubs i = some hub → isEmpty hub.clients = true → t.now ≤ t.since i

/-- An attach is given up only where a client, a timer or another thread is left
to look after the hub. -/
def LeavesNoOrphan (t : Timed) (label : Label) : Prop :=
  ∀ sid i hub, label = .session sid .abandon → (t.world.threads sid).pc = .attaching i →
    t.spawned i = true → t.world.hubs i = some hub → hub.done = false →
    isEmpty hub.clients = true →
    (∃ other, other ≠ sid ∧ PendingThread t.world i other) ∨ 0 < hub.armers ∨ TimerRunning hub

def KeepsWatch (t : Timed) : TimedLabel → Prop
  | .pass _ => True
  | .act label => ArmsAtOnce t label ∧ LeavesNoOrphan t label

/-- What every timer set so far may be due at: nothing past the grace period
counted from when the hub was left, or from now while it is not. -/
def dueBase (t : Timed) (i : Nat) (hub : Hub) : ℚ :=
  if isEmpty hub.clients then t.since i else t.now

structure Watch (grace : ℚ) (t : Timed) (i : Nat) (hub : Hub) : Prop where
  waits : ∀ timer ∈ hub.waiting, timer < hub.nextTimer
  past : t.since i ≤ t.now
  due : ∀ timer < hub.nextTimer, t.deadline i timer ≤ dueBase t i hub + grace
  watched : hub.done = false → isEmpty hub.clients = true →
    Pending t.world i hub ∨ TimerRunning hub

structure Watched (grace : ℚ) (t : Timed) : Prop where
  reachable : ∃ labels, Run step initial labels t.world
  watch : ∀ i hub, t.spawned i = true → t.world.hubs i = some hub → Watch grace t i hub

theorem notAbandoned_of_watched {grace : ℚ} {t : Timed} (h : Watched grace t) :
    NotAbandoned grace t := by
  intro i hub hspawned hhub hlive hempty
  have hwatch := h.watch i hub hspawned hhub
  have hdue : ∀ timer < hub.nextTimer, t.deadline i timer ≤ t.since i + grace := by
    intro timer hlt
    have hle := hwatch.due timer hlt
    rwa [dueBase, if_pos hempty] at hle
  refine (hwatch.watched hlive hempty).imp_right fun hrunning => ?_
  rcases hrunning with hwaiting | hlate
  · obtain ⟨timer, hmem⟩ := List.exists_mem_of_ne_nil _ hwaiting
    exact .inl ⟨timer, hmem, hdue timer (hwatch.waits timer hmem)⟩
  · exact .inr ⟨hlate, hdue⟩

theorem initial_watched (grace : ℚ) : Watched grace .initial where
  reachable := ⟨[], .nil _⟩
  watch := nofun

/-- A thread that is to look after the hub does so, or gives up its attach. -/
theorem pendingThread_step {w next : World} {label : Label} {i : Nat} {sid : String}
    (h : step w label = some next) (hpending : PendingThread w i sid) :
    PendingThread next i sid ∨
      (label = .session sid .abandon ∧ (w.threads sid).pc = .attaching i) ∨
      ∃ act, hubAct w label = some (i, act) ∧
        (act.arms = true ∨ ∃ cid readOnly, act = .addClient cid readOnly) := by
  rcases step_thread h sid with hsame | ⟨name, file, readOnly, j, -, hpc, -⟩ |
    ⟨act, hlabel, hsession⟩
  · exact .inl (by rwa [PendingThread, hsame])
  · rcases hpending with hpending | hpending <;> rw [hpending] at hpc <;> cases hpc
  · rcases hpending with hpc | hpc
    · cases act with
      | abandon => exact .inr (.inl ⟨hlabel, hpc⟩)
      | addClient =>
          simp only [sessionStep, hpc, Option.some.injEq, Prod.mk.injEq] at hsession
          exact .inr (.inr ⟨_, hsession.2.symm, .inr ⟨_, _, rfl⟩⟩)
      | attach | testDone | recv | recvEnd | writeInput | removeClient | armGrace | leave =>
          simp [sessionStep, hpc] at hsession
    · cases act with
      | armGrace =>
          simp only [sessionStep, hpc, Option.some.injEq, Prod.mk.injEq] at hsession
          exact .inr (.inr ⟨_, hsession.2.symm, .inl rfl⟩)
      | attach | abandon | addClient | testDone | recv | recvEnd | writeInput | removeClient
      | leave => simp [sessionStep, hpc] at hsession

/-- Whoever takes the last client out goes on to arm the timer. -/
theorem removeClient_pending {w next : World} {label : Label} {i : Nat} {cid : String} {hub : Hub}
    (h : step w label = some next) (hact : hubAct w label = some (i, .removeClient cid))
    (hhub : w.hubs i = some hub) (hempty : isEmpty (hub.clients.erase cid) = true) :
    PendingThread next i cid := by
  cases calls_of_hubAct hact with
  | own hinternal => cases hinternal
  | removeClient hpc =>
      obtain ⟨planned, hubStep, hplan, -, hthreads, -, -⟩ := step_plan h
      simp only [plan, sessionStep, hpc, hhub, Option.map_some, Option.some.injEq,
        Prod.mk.injEq, hempty, if_true] at hplan
      rw [PendingThread, hthreads, ← hplan.1]
      simp

theorem sinceAfter_same {t : Timed} {next : World} {i : Nat} {hub hub' : Hub}
    (hhub : t.world.hubs i = some hub) (hnext : next.hubs i = some hub') :
    sinceAfter t next i =
      if !isEmpty hub.clients && isEmpty hub'.clients then t.now else t.since i := by
  simp only [sinceAfter, hhub, hnext]

/-- A hub that no step is taken on stays watched: who was pending still is, and
an attach given up leaves another. -/
theorem watch_idle {grace : ℚ} {t : Timed} {label : Label} {next : World} {i : Nat} {hub : Hub}
    (hwatch : Watch grace t i hub) (hspawned : t.spawned i = true)
    (hguard : LeavesNoOrphan t label) (h : step t.world label = some next)
    (hhub : t.world.hubs i = some hub) (hnext : next.hubs i = some hub)
    (hidle : ∀ act, hubAct t.world label ≠ some (i, act)) :
    Watch grace { t with
      world := next
      since := sinceAfter t next
      deadline := deadlineAfter grace t label
      spawned := spawnedAfter t label } i hub := by
  have hsince : sinceAfter t next i = t.since i := by
    rw [sinceAfter_same hhub hnext]
    cases isEmpty hub.clients <;> rfl
  have hdeadline : deadlineAfter grace t label i = t.deadline i := by
    funext timer
    have hsets : setsTimer t.world label i timer = false := by
      unfold setsTimer
      split
      · rename_i j act hub₁ hact hhub₁
        have hne : j ≠ i := fun heq => hidle act (heq ▸ hact)
        simp [hne]
      · rfl
    rw [deadlineAfter, if_neg (by simp [hsets])]
  refine ⟨hwatch.waits, ?_, ?_, ?_⟩
  · simp only [hsince]
    exact hwatch.past
  · simp only [hdeadline, dueBase, hsince]
    exact hwatch.due
  · intro hlive hempty
    rcases hwatch.watched hlive hempty with (⟨sid, hpending⟩ | harmers) | hrunning
    · rcases pendingThread_step h hpending with hstill | ⟨hlabel, hpc⟩ | ⟨act, hact, -⟩
      · exact .inl (.inl ⟨sid, hstill⟩)
      · rcases hguard sid i hub hlabel hpc hspawned hhub hlive hempty with
          ⟨other, hne, hother⟩ | harmers | hrunning
        · rcases pendingThread_step h hother with hstill | ⟨hlabel', -⟩ | ⟨act, hact, -⟩
          · exact .inl (.inl ⟨other, hstill⟩)
          · rw [hlabel] at hlabel'
            cases hlabel'
            exact absurd rfl hne
          · exact absurd hact (hidle act)
        · exact .inl (.inr harmers)
        · exact .inr hrunning
      · exact absurd hact (hidle act)
    · exact .inl (.inr harmers)
    · exact .inr hrunning

/-- A step on the hub leaves it watched: what empties it has a thread on its way
to the timer, and a timer that was running still is. -/
theorem watched_step {w next : World} {label : Label} {i : Nat} {act : Act} {hub hub' : Hub}
    (haccounted : Accounted hub) (h : step w label = some next)
    (hact : hubAct w label = some (i, act)) (hhub : w.hubs i = some hub)
    (hstep : ConsoleHub.step hub act = some hub')
    (hwatched : hub.done = false → isEmpty hub.clients = true →
      Pending w i hub ∨ TimerRunning hub)
    (hlive : hub'.done = false) (hempty : isEmpty hub'.clients = true) :
    Pending next i hub' ∨ TimerRunning hub' := by
  have htimers := step_timers hstep
  have hclients := step_clients hstep
  have hlive' : hub.done = false := by
    cases hdone : hub.done with
    | false => rfl
    | true =>
        rw [(step_frame hstep).done (.inl hdone)] at hlive
        cases hlive
  cases harms : act.arms with
  | true => exact .inr (.inl (htimers.armed harms))
  | false =>
      cases hbefore : isEmpty hub.clients with
      | true =>
          rcases hwatched hlive' hbefore with (⟨sid, hpending⟩ | harmers) | hrunning
          · rcases pendingThread_step h hpending with hstill | ⟨hlabel, -⟩ |
              ⟨act', hact', harms' | ⟨cid, readOnly, hadd⟩⟩
            · exact .inl (.inl ⟨sid, hstill⟩)
            · rw [hlabel] at hact
              cases calls_of_hubAct hact
            · rw [hact] at hact'
              cases hact'
              rw [harms] at harms'
              cases harms'
            · rw [hact] at hact'
              cases hact'
              rw [hclients, hadd, clientsAfter, isEmpty_set] at hempty
              cases hempty
          · rcases htimers.armers harmers with hstill | rfl
            · exact .inl (.inr hstill)
            · cases harms
          · rcases htimers.stays hrunning with hstill | hdone | hne | hne
            · exact .inr hstill
            · exact nomatch hdone.symm.trans hlive
            · exact nomatch hne.symm.trans hbefore
            · exact nomatch hne.symm.trans hempty
      | false =>
          rw [hclients] at hempty
          cases act with
          | removeClient cid =>
              exact .inl (.inl ⟨cid, removeClient_pending h hact hhub hempty⟩)
          | broadcast dead =>
              exact .inl (.inr (htimers.emptied dead rfl (hclients ▸ hempty)))
          | clear => exact nomatch (haccounted.done_of_clear hstep).symm.trans hlive'
          | addClient cid readOnly =>
              rw [clientsAfter, isEmpty_set] at hempty
              cases hempty
          | _ =>
              have hsame : isEmpty hub.clients = true := hempty
              exact nomatch hbefore.symm.trans hsame

/-- A timer is set for a grace period from now; the guard makes that no later than
a grace period from when the hub was left. -/
theorem watch_act {grace : ℚ} {t : Timed} {label : Label} {next : World} {i : Nat} {act : Act}
    {hub hub' : Hub} (hwatch : Watch grace t i hub) (hspawned : t.spawned i = true)
    (hguard : ArmsAtOnce t label) (haccounted : Accounted hub)
    (h : step t.world label = some next) (hact : hubAct t.world label = some (i, act))
    (hhub : t.world.hubs i = some hub) (hnext : next.hubs i = some hub')
    (hstep : ConsoleHub.step hub act = some hub') :
    Watch grace { t with
      world := next
      since := sinceAfter t next
      deadline := deadlineAfter grace t label
      spawned := spawnedAfter t label } i hub' := by
  have htimers := step_timers hstep
  have hsince := sinceAfter_same hhub hnext
  have hpast : sinceAfter t next i ≤ t.now := by
    rw [hsince]
    split
    · exact le_refl _
    · exact hwatch.past
  -- what a timer may be due at is never brought forward
  have hbase : dueBase t i hub ≤
      if isEmpty hub'.clients then sinceAfter t next i else t.now := by
    unfold dueBase
    rw [hsince]
    have hle := hwatch.past
    cases isEmpty hub.clients <;> cases isEmpty hub'.clients <;> simp [hle]
  refine ⟨?_, hpast, ?_, watched_step haccounted h hact hhub hstep hwatch.watched⟩
  · intro timer hmem
    rw [htimers.nextTimer]
    rcases htimers.waiting timer hmem with hold | ⟨harms, rfl⟩
    · exact Nat.lt_of_lt_of_le (hwatch.waits timer hold) (Nat.le_add_right ..)
    · rw [harms]
      exact Nat.lt_succ_self _
  · intro timer hlt
    rw [htimers.nextTimer] at hlt
    change deadlineAfter grace t label i timer ≤
      (if isEmpty hub'.clients then sinceAfter t next i else t.now) + grace
    unfold deadlineAfter
    cases hsets : setsTimer t.world label i timer with
    | true =>
        rw [if_pos rfl]
        have harms : act.arms = true := by
          simp only [setsTimer, hact, hhub, Bool.and_eq_true] at hsets
          exact hsets.1.2
        have hsame : hub'.clients = hub.clients := by
          rw [step_clients hstep]
          cases act <;> first | rfl | cases harms
        have hnow : t.now ≤ if isEmpty hub'.clients then sinceAfter t next i else t.now := by
          rw [hsince, hsame]
          cases hempty : isEmpty hub.clients with
          | true => simpa using hguard i act hub hact harms hspawned hhub hempty
          | false => simp
        linarith
    | false =>
        rw [if_neg (by simp)]
        have hold : timer < hub.nextTimer := by
          cases harms : act.arms with
          | false =>
              rw [harms] at hlt
              exact hlt
          | true =>
              have hne : timer ≠ hub.nextTimer := by
                rintro rfl
                simp [setsTimer, hact, hhub, harms] at hsets
              rw [harms] at hlt
              exact Nat.lt_of_le_of_ne (Nat.lt_succ_iff.mp hlt) hne
        have hdue := hwatch.due timer hold
        linarith

theorem watch_pass {grace time : ℚ} {t : Timed} {i : Nat} {hub : Hub} (htime : 0 ≤ time)
    (hwatch : Watch grace t i hub) : Watch grace { t with now := t.now + time } i hub := by
  have hpast : t.since i ≤ t.now + time := by
    have hle := hwatch.past
    linarith
  refine { hwatch with past := hpast, due := ?_ }
  intro timer hlt
  have hdue := hwatch.due timer hlt
  unfold dueBase at hdue ⊢
  split
  · rename_i hempty
    rwa [if_pos hempty] at hdue
  · rename_i hempty
    rw [if_neg hempty] at hdue
    have hle : t.now + grace ≤ t.now + time + grace := by linarith
    exact le_trans hdue hle

theorem spawnedAfter_old {t : Timed} {i : Nat} (hne : i ≠ t.world.nextHub) (label : Label) :
    spawnedAfter t label i = t.spawned i := by
  unfold spawnedAfter
  split
  · exact if_neg fun hnew => hne hnew.2
  · rfl

theorem step_watched (grace : ℚ) (t : Timed) (label : TimedLabel) (next : Timed)
    (hinv : Watched grace t) (hguard : KeepsWatch t label)
    (h : timedStep grace t label = some next) : Watched grace next := by
  obtain ⟨⟨labels, hrun⟩, hwatch⟩ := hinv
  cases label with
  | pass time =>
      simp only [timedStep] at h
      split at h <;> cases h
      exact ⟨⟨labels, hrun⟩, fun i hub hspawned hhub => watch_pass ‹_› (hwatch i hub hspawned hhub)⟩
  | act label =>
      obtain ⟨harms, horphan⟩ := hguard
      obtain ⟨world, hstep, rfl⟩ := timedStep_act h
      refine ⟨⟨_, hrun.append (.cons hstep (.nil _))⟩, ?_⟩
      intro i hub' hspawned hnext
      have hspawned : spawnedAfter t label i = true := hspawned
      have hnext : world.hubs i = some hub' := hnext
      have hold : ∀ hub, t.world.hubs i = some hub → t.spawned i = true := by
        intro hub hhub
        rwa [spawnedAfter_old] at hspawned
        rintro rfl
        rw [fresh_of_run hrun _ (Nat.le_refl _)] at hhub
        cases hhub
      rcases step_hub hstep hnext with ⟨hhub, hidle⟩ |
        ⟨name, n, file, caller, rfl, hget, hi, rfl, hthreads⟩ | ⟨act, hub, hact, hhub, hstepped⟩
      · have hsame := hold hub' hhub
        exact watch_idle (hwatch i hub' hsame hhub) hsame horphan hstep hhub hnext hidle
      · -- a new hub has its creator on the way to `add_client`
        have hnone : t.world.hubs i = none := fresh_of_run hrun i (Nat.le_of_eq hi.symm)
        have hsome : caller.isSome = true := by
          simpa [spawnedAfter, hget, hi] using hspawned
        obtain ⟨⟨sid, readOnly⟩, rfl⟩ := Option.isSome_iff_exists.mp hsome
        refine ⟨nofun, ?_, nofun, fun _ _ => .inl (.inl ⟨sid, .inl ?_⟩)⟩
        · change sinceAfter t world i ≤ t.now
          rw [sinceAfter, hnone, hnext]
        · change (world.threads sid).pc = .attaching i
          rw [hthreads, enter, update_self]
      · have hsame := hold hub hhub
        exact watch_act (hwatch i hub hsame hhub) hsame harms
          (accounted_of_run hrun i hub hhub) hstep hact hhub hnext hstepped

/-- In every run in which timers on empty hubs are set at once and no attach that
is given up leaves a hub to itself, no spawned process is abandoned. -/
theorem notAbandoned_of_keepsWatch {grace : ℚ} {labels : List TimedLabel} {t : Timed}
    (hrun : GuardedRun (timedStep grace) KeepsWatch .initial labels t) : NotAbandoned grace t :=
  notAbandoned_of_watched (hrun.invariant (step_watched grace) (initial_watched grace))

/-- A user spawns a console and leaves it ten seconds later. -/
def visitRun : List TimedLabel :=
  [.act (.acquire 5), .act (.getOrCreate "lab01" 0 (some ("s1", false))),
    .act (.session "s1" .addClient), .act (.session "s1" .testDone), .pass 10,
    .act (.session "s1" .recvEnd), .act (.session "s1" .removeClient),
    .act (.session "s1" .armGrace), .pass 5]

theorem notAbandoned_visitRun :
    ∃ t, exec (timedStep 30) .initial visitRun = some t ∧ NotAbandoned 30 t := by
  have hother : ∀ {t label}, (∀ i act, hubAct t.world label = some (i, act) → act.arms = false) →
      (∀ sid, label ≠ .session sid .abandon) → KeepsWatch t (.act label) := by
    intro t label hact hlabel
    refine ⟨fun i act hub h harms => ?_, fun sid i hub h => absurd h (hlabel sid)⟩
    rw [hact i act h] at harms
    cases harms
  have hrun : ∃ t, exec (timedStep 30) .initial visitRun = some t ∧
      GuardedRun (timedStep 30) KeepsWatch .initial visitRun t := by
    have harming : ∀ t : Timed, (∀ hub, t.world.hubs 0 = some hub → t.now ≤ t.since 0) →
        hubAct t.world (.session "s1" .armGrace) = some (0, .armGrace) →
        KeepsWatch t (.act (.session "s1" .armGrace)) := by
      intro t hnow hact
      refine ⟨fun i act hub h _ _ hhub _ => ?_, by simp [LeavesNoOrphan]⟩
      rw [hact] at h
      cases h
      exact hnow hub hhub
    refine ⟨_, rfl, .cons (hother ?_ (by simp)) rfl <| .cons (hother ?_ (by simp)) rfl <|
      .cons (hother ?_ (by simp)) rfl <| .cons (hother ?_ (by simp)) rfl <| .cons trivial rfl <|
      .cons (hother ?_ (by simp)) rfl <| .cons (hother ?_ (by simp)) rfl <|
      .cons (harming _ (fun _ _ => ?_) rfl) rfl <| .cons trivial rfl <| .nil _⟩
    case refine_7 => decide +kernel
    all_goals
      intro i act hact
      cases hact
    all_goals rfl
  obtain ⟨t, hexec, hrun⟩ := hrun
  exact ⟨t, hexec, notAbandoned_of_keepsWatch hrun⟩

def TimedLabel.session : TimedLabel → Option String
  | .act (.session sid _) => some sid
  | .act (.getOrCreate _ _ (some (sid, _))) => some sid
  | _ => none

/-- A session is where it was as long as no step is its own. -/
theorem thread_of_run {grace : ℚ} {t t' : Timed} {labels : List TimedLabel} {sid : String}
    (hrun : Run (timedStep grace) t labels t')
    (hlabels : ∀ label ∈ labels, label.session ≠ some sid) :
    t'.world.threads sid = t.world.threads sid := by
  induction hrun with
  | nil _ => rfl
  | @cons start next finish label labels hstep _ ih =>
      rw [ih fun label hmem => hlabels label (List.mem_cons_of_mem _ hmem)]
      have hother := hlabels label (List.mem_cons_self ..)
      cases label with
      | pass time =>
          simp only [timedStep] at hstep
          split at hstep <;> cases hstep
          rfl
      | act label =>
          obtain ⟨world, hworld, rfl⟩ := timedStep_act hstep
          rcases step_thread hworld sid with hsame | ⟨name, file, readOnly, i, rfl, -, -⟩ |
            ⟨act, rfl, -⟩
          · exact hsame
          · exact absurd rfl hother
          · exact absurd rfl hother

/-- The client is gone by the time it is to be told that it is attached. -/
def goneRun : List TimedLabel :=
  [.act (.acquire 5), .act (.getOrCreate "lab01" 0 (some ("s1", false))),
    .act (.session "s1" .abandon)]

/-- The user detaches, and the console prints a line twenty seconds later. -/
def chattyRun : List TimedLabel :=
  [.act (.acquire 5), .act (.getOrCreate "lab01" 0 (some ("s1", false))),
    .act (.session "s1" .addClient), .act (.session "s1" .testDone),
    .act (.session "s1" .recvEnd), .act (.session "s1" .removeClient),
    .act (.session "s1" .armGrace), .act (.session "s1" .leave), .pass 20,
    .act (.hub 0 .test), .act (.hub 0 (.read [0x42])), .act (.hub 0 (.broadcast [])),
    .act (.hub 0 .armSpawned)]

/-- In the first run no timer is ever set, in the second it is put off, and every
further line puts it off again. -/
theorem spawned_abandoned :
    (∃ t, exec (timedStep 30) .initial goneRun = some t ∧ ¬ NotAbandoned 30 t) ∧
      ∃ t, exec (timedStep 30) .initial chattyRun = some t ∧ ¬ NotAbandoned 30 t := by
  have hprompt : ∀ {labels t}, exec (timedStep 30) .initial labels = some t →
      (∀ label ∈ labels, label.session = none ∨ label.session = some "s1") →
      (t.world.threads "s1").pc = .prompt → ¬ ∃ sid, PendingThread t.world 0 sid := by
    rintro labels t hexec hlabels hleft ⟨sid, hpending⟩
    have hpc : (t.world.threads sid).pc = .prompt := by
      by_cases hsid : sid = "s1"
      · rw [hsid, hleft]
      · rw [thread_of_run (run_of_exec hexec)]
        · rfl
        · intro label hmem
          rcases hlabels label hmem with h | h <;> simp [h, Ne.symm hsid]
    rcases hpending with h | h <;> rw [hpc] at h <;> cases h
  constructor
  · refine ⟨_, rfl, fun h => ?_⟩
    rcases h 0 _ rfl rfl rfl rfl with (hthread | harmers) | ⟨timer, hmem, -⟩ | ⟨hlate | hlate, -⟩
    · exact @hprompt goneRun _ rfl (by decide) rfl hthread
    all_goals cases ‹_›
  · refine ⟨_, rfl, fun h => ?_⟩
    rcases h 0 _ rfl rfl rfl rfl with (hthread | harmers) | ⟨timer, hmem, hdue⟩ | ⟨hlate | hlate, -⟩
    · exact @hprompt chattyRun _ rfl (by decide) rfl hthread
    · cases harmers
    · cases hmem with
      | head => exact absurd hdue (by decide +kernel)
      | tail _ hmem => cases hmem
    · cases hlate
    · cases hlate

end Vnctlsd.HubWorld
