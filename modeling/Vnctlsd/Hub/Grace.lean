import Vnctlsd.Hub.ConsoleHub
import Vnctlsd.Library.Transition

/-! The grace timer against the client set.  `_teardown` looks for clients under
the lock and shuts the hub down after it has let go of it. -/
namespace Vnctlsd.ConsoleHub
open Vnctlsd.Library Vnctlsd.Library.Transition

theorem isEmpty_iff {clients : Dict String Bool} : isEmpty clients = true ↔ clients.entries = [] :=
  List.isEmpty_iff

theorem isEmpty_set (clients : Dict String Bool) (cid : String) (readOnly : Bool) :
    isEmpty (clients.set cid readOnly) = false := by
  rw [Bool.eq_false_iff, ne_eq, isEmpty_iff]
  exact List.ne_nil_of_mem (Dict.mem_set.mpr (.inl rfl))

theorem isEmpty_erase {clients : Dict String Bool} (h : isEmpty clients = true) (cid : String) :
    isEmpty (clients.erase cid) = true := by
  rw [isEmpty_iff] at h ⊢
  simp [Dict.erase, h]

theorem isEmpty_eraseMany {clients : Dict String Bool} (h : isEmpty clients = true)
    (dead : List String) : isEmpty (clients.eraseMany dead) = true := by
  rw [isEmpty_iff] at h ⊢
  simp [Dict.entries_eraseMany, h]

def clientsAfter (clients : Dict String Bool) : Act → Dict String Bool
  | .addClient cid readOnly => clients.set cid readOnly
  | .removeClient cid => clients.erase cid
  | .broadcast dead => clients.eraseMany dead
  | .clear => .empty
  | _ => clients

theorem step_clients {hub next : Hub} {act : Act} (h : step hub act = some next) :
    next.clients = clientsAfter hub.clients act := by
  cases act with
  | addClient | removeClient | armGrace | shutdown | writeFailed =>
      cases h
      rfl
  | broadcast dead =>
      simp only [step] at h
      split at h
      · split at h <;> cases h
        rfl
      · cases h
  | checkGrace =>
      simp only [step] at h
      split at h
      · split at h <;> cases h <;> rfl
      · cases h
  | armSpawned | expire | timerShutdown | timerClose | close | test | read | fail | clear
  | readerClose =>
      simp only [step] at h
      split at h <;> cases h
      rfl

/-- Only `add_client` brings clients into an empty hub. -/
theorem isEmpty_clientsAfter {clients : Dict String Bool} {act : Act}
    (h : isEmpty clients = true) (hact : ∀ cid readOnly, act ≠ .addClient cid readOnly) :
    isEmpty (clientsAfter clients act) = true := by
  cases act with
  | addClient cid readOnly => exact absurd rfl (hact cid readOnly)
  | removeClient cid => exact isEmpty_erase h cid
  | broadcast dead => exact isEmpty_eraseMany h dead
  | clear => rfl
  | _ => exact h

theorem doomed_of_step {hub next : Hub} {act : Act} (h : step hub act = some next)
    (hpos : 0 < next.doomed) :
    0 < hub.doomed ∨ act = .checkGrace ∧ isEmpty hub.clients = true := by
  cases act with
  | addClient | removeClient | armGrace | shutdown | writeFailed =>
      cases h
      exact .inl hpos
  | broadcast dead =>
      simp only [step] at h
      split at h
      · split at h <;> cases h
        exact .inl hpos
      · cases h
  | checkGrace =>
      simp only [step] at h
      split at h
      · split at h <;> cases h
        · exact .inr ⟨rfl, ‹_›⟩
        · exact .inl hpos
      · cases h
  | timerShutdown =>
      simp only [step] at h
      split at h <;> cases h
      exact .inl ‹_›
  | armSpawned | expire | timerClose | close | test | read | fail | clear | readerClose =>
      simp only [step] at h
      split at h <;> cases h
      exact .inl hpos

def Act.arms : Act → Bool
  | .armGrace | .armSpawned => true
  | _ => false

/-- A timer waits, or is past its wait and still in `_teardown`. -/
def TimerRunning (hub : Hub) : Prop := hub.waiting ≠ [] ∨ 0 < hub.expired ∨ 0 < hub.doomed

/-- What a step does to the timers and to the threads that are to arm one. -/
structure Timers (hub next : Hub) (act : Act) : Prop where
  nextTimer : next.nextTimer = hub.nextTimer + act.arms.toNat
  waiting : ∀ timer ∈ next.waiting,
    timer ∈ hub.waiting ∨ act.arms = true ∧ timer = hub.nextTimer
  armed : act.arms = true → next.waiting ≠ []
  stays : TimerRunning hub → TimerRunning next ∨ next.done = true ∨
    isEmpty hub.clients = false ∨ isEmpty next.clients = false
  armers : 0 < hub.armers → 0 < next.armers ∨ act = .armSpawned
  emptied : ∀ dead, act = .broadcast dead → isEmpty next.clients = true → 0 < next.armers

theorem mem_cancelled {hub : Hub} {timer : Nat} (h : timer ∈ cancelled hub) :
    timer ∈ hub.waiting := by
  unfold cancelled at h
  split at h
  · exact h
  · exact List.mem_of_mem_erase h

theorem mem_arm {hub : Hub} {timer : Nat} (h : timer ∈ (arm hub).waiting) :
    timer ∈ hub.waiting ∨ timer = hub.nextTimer := by
  rcases List.mem_cons.mp h with rfl | h
  · exact .inr rfl
  · exact .inl (mem_cancelled h)

theorem not_arms {act : Act} {post : Prop} (h : act.arms = false) (harms : act.arms = true) :
    post :=
  absurd (h.symm.trans harms) Bool.false_ne_true

def Act.sends : Act → Bool
  | .broadcast _ => true
  | _ => false

theorem not_broadcast {act : Act} {post : Prop} (h : act.sends = false) (dead : List String)
    (heq : act = .broadcast dead) : post := by
  rw [heq] at h
  cases h

theorem step_timers {hub next : Hub} {act : Act} (h : step hub act = some next) :
    Timers hub next act := by
  cases act with
  | addClient cid readOnly =>
      cases h
      refine ⟨rfl, fun timer hmem => .inl (mem_cancelled hmem), not_arms rfl, ?_, .inl,
        not_broadcast rfl⟩
      exact fun _ => .inr (.inr (.inr (isEmpty_set ..)))
  | removeClient | shutdown | writeFailed =>
      cases h
      exact ⟨rfl, fun _ => .inl, not_arms rfl, .inl, .inl, not_broadcast rfl⟩
  | armGrace =>
      cases h
      refine ⟨rfl, fun timer hmem => ?_, fun _ => List.cons_ne_nil _ _, ?_, .inl,
        not_broadcast rfl⟩
      · exact (mem_arm hmem).imp_right fun heq => ⟨rfl, heq⟩
      · exact fun _ => .inl (.inl (List.cons_ne_nil _ _))
  | armSpawned =>
      simp only [step] at h
      split at h <;> cases h
      refine ⟨rfl, fun timer hmem => ?_, fun _ => List.cons_ne_nil _ _, ?_,
        fun _ => .inr rfl, not_broadcast rfl⟩
      · exact (mem_arm hmem).imp_right fun heq => ⟨rfl, heq⟩
      · exact fun _ => .inl (.inl (List.cons_ne_nil _ _))
  | expire timer =>
      simp only [step] at h
      split at h <;> cases h
      refine ⟨rfl, fun _ hmem => .inl (List.mem_of_mem_erase hmem), not_arms rfl, ?_, .inl,
        not_broadcast rfl⟩
      exact fun _ => .inl (.inr (.inl (Nat.succ_pos _)))
  | checkGrace =>
      simp only [step] at h
      split at h
      · split at h <;> cases h
        · refine ⟨rfl, fun _ => .inl, not_arms rfl, fun _ => ?_, .inl, not_broadcast rfl⟩
          exact .inl (.inr (.inr (Nat.succ_pos _)))
        · refine ⟨rfl, fun _ => .inl, not_arms rfl, fun _ => ?_, .inl, not_broadcast rfl⟩
          exact .inr (.inr (.inl (Bool.eq_false_iff.mpr ‹_›)))
      · cases h
  | timerShutdown =>
      simp only [step] at h
      split at h <;> cases h
      exact ⟨rfl, fun _ => .inl, not_arms rfl, fun _ => .inr (.inl rfl), .inl, not_broadcast rfl⟩
  | broadcast dead =>
      simp only [step] at h
      split at h
      · split at h <;> cases h
        refine ⟨rfl, fun _ => .inl, not_arms rfl, .inl, fun hpos => .inl ?_, ?_⟩
        · simp only [drop]
          split
          · exact Nat.succ_pos _
          · exact hpos
        · rintro _ - hempty
          simp only [drop] at hempty ⊢
          rw [if_pos hempty]
          exact Nat.succ_pos _
      · cases h
  | timerClose | close | test | read | fail | clear | readerClose =>
      simp only [step] at h
      split at h <;> cases h
      exact ⟨rfl, fun _ => .inl, not_arms rfl, .inl, .inl, not_broadcast rfl⟩

/-- The timer's `done.set()`, where it can be the next step, meets no client. -/
def TeardownSpares (hub : Hub) : Prop :=
  ∀ next, step hub .timerShutdown = some next → isEmpty hub.clients = true

/-- Nobody attaches between a timer's look at the clients and its `shutdown`. -/
def AttachesAhead (hub : Hub) (act : Act) : Prop :=
  ∀ cid readOnly, act = .addClient cid readOnly → hub.doomed = 0

def DoomedEmpty (hub : Hub) : Prop := 0 < hub.doomed → isEmpty hub.clients = true

theorem step_doomedEmpty (hub : Hub) (act : Act) (next : Hub) (hinv : DoomedEmpty hub)
    (hguard : AttachesAhead hub act) (h : step hub act = some next) : DoomedEmpty next := by
  intro hpos
  rw [step_clients h]
  rcases doomed_of_step h hpos with hbefore | ⟨rfl, hempty⟩
  · refine isEmpty_clientsAfter (hinv hbefore) ?_
    intro cid readOnly hact
    rw [hguard cid readOnly hact] at hbefore
    cases hbefore
  · exact hempty

/-- In every run in which nobody attaches in that gap the grace timer shuts down
no hub that has a client. -/
theorem teardownSpares_of_attachesAhead {name : String} {fd file : Nat} {acts : List Act}
    {hub : Hub} (hrun : GuardedRun step AttachesAhead (create name fd file) acts hub) :
    TeardownSpares hub := by
  have hinv : DoomedEmpty hub := hrun.invariant step_doomedEmpty nofun
  intro next h
  simp only [step] at h
  split at h
  · exact hinv ‹_›
  · cases h

/-- The last client leaves and nobody comes within the grace period. -/
def deserted : List Act :=
  [.addClient "s1" false, .removeClient "s1", .armGrace, .expire 0, .checkGrace]

theorem teardownSpares_deserted :
    ∃ hub, exec step (create "lab01" 5 0) deserted = some hub ∧ TeardownSpares hub := by
  have hother : ∀ {hub act}, (∀ cid readOnly, act ≠ .addClient cid readOnly) →
      AttachesAhead hub act := fun h cid readOnly hact => absurd hact (h cid readOnly)
  have hrun : ∃ hub, exec step (create "lab01" 5 0) deserted = some hub ∧
      GuardedRun step AttachesAhead (create "lab01" 5 0) deserted hub :=
    ⟨_, rfl, .cons (fun _ _ _ => rfl) rfl <| .cons (hother nofun) rfl <|
      .cons (hother nofun) rfl <| .cons (hother nofun) rfl <| .cons (hother nofun) rfl <| .nil _⟩
  obtain ⟨hub, hexec, hrun⟩ := hrun
  exact ⟨hub, hexec, teardownSpares_of_attachesAhead hrun⟩

/-- The client attaches after the look and is shut down under its feet. -/
theorem deserted_attach_not_spared :
    ∃ hub next, Run step (create "lab01" 5 0) (deserted ++ [.addClient "s2" false]) hub ∧
      step hub .timerShutdown = some next ∧ next.done = true ∧
      next.clients.keys = ["s2"] ∧ ¬ TeardownSpares hub := by
  refine ⟨_, _, run_of_exec rfl, rfl, rfl, rfl, fun h => ?_⟩
  exact absurd (h _ rfl) (by decide)

end Vnctlsd.ConsoleHub
