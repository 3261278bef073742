import Vnctlsd.Hub.Descriptors

/-! Where a session's keystrokes go.  Between its test of `is_done` and its call
of `write_input` a session holds on to the hub, but not to the descriptor. -/
namespace Vnctlsd.HubWorld
open Function Vnctlsd.Library.Transition ConsoleHub

def Pc.inFlight : Pc → Option Nat
  | .receiving i | .writing i _ _ => some i
  | _ => none

/-- The session has tested `is_done` and not yet passed its input on. -/
def InFlight (thread : Thread) (i : Nat) : Prop :=
  (thread.readOnly = false ∧ thread.pc = .receiving i) ∨
    ∃ data detach, thread.pc = .writing i data detach

theorem InFlight.pc {thread : Thread} {i : Nat} (h : InFlight thread i) :
    thread.pc.inFlight = some i := by
  rcases h with ⟨-, hpc⟩ | ⟨data, detach, hpc⟩ <;> rw [hpc] <;> rfl

theorem afterWrite_inFlight (i : Nat) (detach : Bool) : (afterWrite i detach).inFlight = none := by
  cases detach <;> rfl

theorem received_inFlight {i j : Nat} {thread : Thread} {data : List UInt8}
    (h : (received j thread data).pc.inFlight = some i) : thread.readOnly = false ∧ j = i := by
  cases hmode : thread.readOnly with
  | true =>
      rw [received, if_pos hmode] at h
      cases h
  | false =>
      rw [received, if_neg (by simp [hmode])] at h
      dsimp only at h
      split at h
      · rw [afterWrite_inFlight] at h
        cases h
      · exact ⟨rfl, Option.some.inj h⟩

/-- Input that is about to be written goes to the descriptor the hub was created
with, which the hub has not closed. -/
def InputIsolated (w : World) : Prop :=
  ∀ sid i data detach, (w.threads sid).pc = .writing i data detach →
    ∃ hub, w.hubs i = some hub ∧ hub.closes = 0 ∧ w.fds hub.fd = some hub.file

/-- The step, if it closes a hub's descriptor, is the first to do so and comes
between no session's test and its input. -/
def ClosesQuietly (w : World) (label : Label) : Prop :=
  ∀ i act hub, hubAct w label = some (i, act) → act.closes = true → w.hubs i = some hub →
    hub.closes = 0 ∧ ∀ sid, ¬ InFlight (w.threads sid) i

theorem sessionStep_inFlight {w : World} {sid : String} {thread next : Thread}
    {act : SessionAct} {hubStep : Option (Nat × Act)} {i : Nat}
    (h : sessionStep w sid thread act = some (next, hubStep)) (hflight : InFlight next i) :
    InFlight thread i ∨ ∃ hub, w.hubs i = some hub ∧ hub.done = false ∧ hubStep = none := by
  have hpc := hflight.pc
  cases sessionStep_cases h with
  | attach | abandon | addClient | recvEnd | armGrace | leave => cases hpc
  | @testDone j hub htesting hhub =>
      dsimp only at hpc
      split at hpc
      · cases hpc
      · cases hpc
        exact .inr ⟨hub, hhub, Bool.eq_false_iff.mpr ‹_›, rfl⟩
  | recv hreceiving =>
      obtain ⟨hmode, rfl⟩ := received_inFlight hpc
      exact .inl (.inl ⟨hmode, hreceiving⟩)
  | writeInput =>
      rw [afterWrite_inFlight] at hpc
      cases hpc
  | removeClient =>
      dsimp only at hpc
      split at hpc <;> cases hpc

theorem core_keeps {w next : World} {act : Option (Nat × Act)} (hcore : Core w next act)
    (hfresh : ∀ i, w.nextHub ≤ i → w.hubs i = none) {i : Nat} {hub : Hub}
    (hhub : w.hubs i = some hub) : next.hubs i = some hub ∨
      ∃ a hub', act = some (i, a) ∧ ConsoleHub.step hub a = some hub' ∧
        next.hubs i = some hub' := by
  cases hcore with
  | idle _ _ hhubs => exact .inl (hhubs ▸ hhub)
  | acquire _ _ _ _ hhubs => exact .inl (hhubs ▸ hhub)
  | release _ _ _ _ _ hhubs => exact .inl (hhubs ▸ hhub)
  | create name file n hholds hfds hheld hhubs =>
      have hne : i ≠ w.nextHub := by
        rintro rfl
        rw [hfresh _ (Nat.le_refl _)] at hhub
        cases hhub
      rw [hhubs, update_of_ne hne]
      exact .inl hhub
  | hub j act here hub' hhere hstep hfds hheld hhubs =>
      rw [hhubs]
      by_cases hij : i = j
      · subst hij
        obtain rfl := Option.some.inj (hhub.symm.trans hhere)
        exact .inr ⟨act, hub', rfl, hstep, update_self ..⟩
      · rw [update_of_ne hij]
        exact .inl hhub

theorem closes_eq_zero {hub : Hub} (h : Accounted hub) (hdone : hub.done = false) :
    hub.closes = 0 := by
  have hlive : ¬ (0 < hub.shutdowns ∨ hub.reader.inLoop = false) := by
    intro hended
    rw [h.isDone hended] at hdone
    cases hdone
  have hbalance := h.balance
  have hreader : hub.reader ≠ .exited := by
    intro hexited
    exact hlive (.inr (by rw [hexited]; rfl))
  rw [if_neg hreader] at hbalance
  omega

structure Isolated (w : World) : Prop where
  sound : Sound w
  flights : ∀ sid i, InFlight (w.threads sid) i →
    ∃ hub, w.hubs i = some hub ∧ hub.closes = 0

theorem step_isolated (w : World) (label : Label) (next : World) (hinv : Isolated w)
    (hguard : ClosesQuietly w label) (h : step w label = some next) : Isolated next := by
  obtain ⟨hsound, hflights⟩ := hinv
  have hfirst : ClosesFirst w label := fun i act hub hact hcloses hhub =>
    (hguard i act hub hact hcloses hhub).1
  refine ⟨step_sound hsound hfirst h, fun sid i hflight => ?_⟩
  have hcore := step_core h
  -- a session that was in flight keeps its hub, since no step may close it now
  have hstays : InFlight (w.threads sid) i → ∃ hub, next.hubs i = some hub ∧ hub.closes = 0 := by
    intro hbefore
    obtain ⟨hub, hhub, hopen⟩ := hflights sid i hbefore
    rcases core_keeps hcore hsound.fresh hhub with hsame | ⟨a, hub', hact, hstep, hnext⟩
    · exact ⟨hub, hsame, hopen⟩
    · refine ⟨hub', hnext, ?_⟩
      rw [(step_frame hstep).closes, hopen]
      cases hcloses : a.closes with
      | false => rfl
      | true => exact absurd hbefore ((hguard i a hub hact hcloses hhub).2 sid)
  rcases step_thread h sid with hsame | ⟨name, file, readOnly, j, -, -, hentered⟩ |
    ⟨act, -, hsession⟩
  · rw [hsame] at hflight
    exact hstays hflight
  · have hpc := hflight.pc
    rw [hentered] at hpc
    cases hpc
  · rcases sessionStep_inFlight hsession hflight with hbefore | ⟨hub, hhub, hlive, hidle⟩
    · exact hstays hbefore
    · rcases core_keeps hcore hsound.fresh hhub with hsame | ⟨a, hub', hact, -, -⟩
      · exact ⟨hub, hsame, closes_eq_zero (hsound.accounted i hub hhub) hlive⟩
      · rw [hidle] at hact
        cases hact

theorem initial_isolated : Isolated initial where
  sound := initial_sound
  flights := by
    rintro sid i (⟨-, hpc⟩ | ⟨data, detach, hpc⟩) <;> cases hpc

/-- In every run whose closes are each hub's first and fall between no session's
test and its input, console input reaches its own console only. -/
theorem inputIsolated_of_closesQuietly {w : World} {labels : List Label}
    (hrun : GuardedRun step ClosesQuietly initial labels w) : InputIsolated w := by
  have hinv : Isolated w := hrun.invariant step_isolated initial_isolated
  intro sid i data detach hpc
  obtain ⟨hub, hhub, hopen⟩ := hinv.flights sid i (.inr ⟨data, detach, hpc⟩)
  exact ⟨hub, hhub, hopen, hinv.sound.owned.isOpen (claims_hub hhub hopen)⟩

def typingRun : List Label :=
  [.acquire 5, .getOrCreate "lab01" 0 (some ("s1", false)), .session "s1" .addClient,
    .session "s1" .testDone, .session "s1" (.recv [0x69, 0x64])]

theorem inputIsolated_typingRun :
    ∃ w, exec step initial typingRun = some w ∧ InputIsolated w := by
  have hquiet : ∀ {w label}, (∀ i act, hubAct w label = some (i, act) → act.closes = false) →
      ClosesQuietly w label := by
    intro w label h i act hub hact hcloses
    rw [h i act hact] at hcloses
    cases hcloses
  have hrun : ∃ w, exec step initial typingRun = some w ∧
      GuardedRun step ClosesQuietly initial typingRun w := by
    refine ⟨_, rfl, .cons (hquiet ?_) rfl <| .cons (hquiet ?_) rfl <| .cons (hquiet ?_) rfl <|
      .cons (hquiet ?_) rfl <| .cons (hquiet ?_) rfl <| .nil _⟩
    all_goals
      intro i act hact
      cases hact
    rfl
  obtain ⟨w, hexec, hrun⟩ := hrun
  exact ⟨w, hexec, inputIsolated_of_closesQuietly hrun⟩

/-- The client is waiting to be read when the socket disappears and the number
goes to another client. -/
def reusedRun : List Label :=
  [.acquire 5, .getOrCreate "lab01" 0 (some ("s1", false)), .session "s1" .addClient,
    .session "s1" .testDone, .listener (.disappeared "lab01"), .listener .stop,
    .listener .close, .acquire 5, .session "s1" (.recv [0x69, 0x64])]

/-- The input is about to be written to the other client. -/
theorem reusedRun_not_isolated :
    ∃ w, Run step initial reusedRun w ∧
      (w.threads "s1").pc = .writing 0 [0x69, 0x64] false ∧
      (w.hubs 0).map Hub.fd = some 5 ∧ w.held 1 = some 5 ∧ w.fds 5 = some 1 ∧
      ¬ InputIsolated w := by
  refine ⟨_, run_of_exec rfl, rfl, rfl, rfl, rfl, fun h => ?_⟩
  obtain ⟨hub, hhub, hopen, -⟩ := h "s1" 0 [0x69, 0x64] false rfl
  cases hhub
  exact absurd hopen (by decide)

end Vnctlsd.HubWorld
