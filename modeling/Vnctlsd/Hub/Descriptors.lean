import Vnctlsd.Library.Handles
import Vnctlsd.Hub.World

/-! Who may close which descriptor.  A hub claims its number until it has closed
it, other code the numbers it holds; as long as every hub closes once only, no
two claims meet and every number stands for what it was handed out for. -/
namespace Vnctlsd.HubWorld
open Function Vnctlsd.Library.Handles Vnctlsd.Library.Transition ConsoleHub

inductive Party where
  | hub (i : Nat)
  | other (file : Nat)
  deriving DecidableEq

theorem Party.hub_ne_other (i file : Nat) : Party.hub i ≠ .other file := nofun

def claims (w : World) : Party → Option (Nat × Nat)
  | .hub i => (w.hubs i).bind fun hub => if hub.closes = 0 then some (hub.fd, hub.file) else none
  | .other file => (w.held file).map fun n => (n, file)

theorem claims_hub {w : World} {i : Nat} {hub : Hub} (h : w.hubs i = some hub)
    (hopen : hub.closes = 0) : claims w (.hub i) = some (hub.fd, hub.file) := by
  simp [claims, h, hopen]

structure Sound (w : World) : Prop where
  owned : Owned w.fds (claims w)
  accounted : ∀ i hub, w.hubs i = some hub → Accounted hub
  fresh : ∀ i, w.nextHub ≤ i → w.hubs i = none

theorem initial_sound : Sound initial where
  owned := ⟨fun {c} => by cases c <;> simp [claims, initial],
    fun {c} => by cases c <;> simp [claims, initial]⟩
  accounted := nofun
  fresh := fun _ _ => rfl

theorem claims_congr {w next : World} (hheld : next.held = w.held) (hhubs : next.hubs = w.hubs) :
    claims next = claims w := by
  funext c
  cases c <;> simp [claims, hheld, hhubs]

theorem claims_held {w next : World} {file : Nat} {n : Option Nat}
    (hheld : next.held = update w.held file n) (hhubs : next.hubs = w.hubs) :
    claims next = update (claims w) (.other file) (n.map fun n => (n, file)) := by
  funext c
  cases c with
  | hub i => rw [update_of_ne (Party.hub_ne_other i file), claims, claims, hhubs]
  | other file' =>
      by_cases heq : file' = file
      · subst heq
        rw [update_self, claims, hheld, update_self]
      · rw [update_of_ne (by simpa using heq), claims, claims, hheld, update_of_ne heq]

/-- What a step on a hub does to the claims: nothing, unless it closes. -/
theorem claims_hub_step {w next : World} {i : Nat} {act : Act} {hub hub' : Hub}
    (hhub : w.hubs i = some hub) (hstep : ConsoleHub.step hub act = some hub')
    (hheld : next.held = w.held) (hhubs : next.hubs = update w.hubs i (some hub')) :
    claims next = if act.closes then update (claims w) (.hub i) none else claims w := by
  have hframe := step_frame hstep
  funext c
  cases c with
  | other file =>
      have hsame : claims next (.other file) = claims w (.other file) := by
        rw [claims, claims, hheld]
      rw [hsame]
      split
      · rw [update_of_ne (Party.hub_ne_other i file).symm]
      · rfl
  | hub j =>
      by_cases hj : j = i
      · subst hj
        have hnext : next.hubs j = some hub' := by rw [hhubs, update_self]
        cases hcloses : act.closes with
        | true =>
            have hclosed : hub'.closes ≠ 0 := by simp [hframe.closes, hcloses]
            simp [claims, hnext, hclosed]
        | false =>
            have hsame : hub'.closes = hub.closes := by simp [hframe.closes, hcloses]
            simp [claims, hnext, hhub, hsame, hframe.fd, hframe.file]
      · have hother : claims next (.hub j) = claims w (.hub j) := by
          rw [claims, claims, hhubs, update_of_ne hj]
        rw [hother]
        split
        · rw [update_of_ne (by simpa using hj)]
        · rfl

def ClosesFirst (w : World) (label : Label) : Prop :=
  ∀ i act hub, hubAct w label = some (i, act) → act.closes = true → w.hubs i = some hub →
    hub.closes = 0

theorem core_owned {w next : World} {act : Option (Nat × Act)} (hsound : Sound w)
    (hcore : Core w next act)
    (hfirst : ∀ i a hub, act = some (i, a) → a.closes = true → w.hubs i = some hub →
      hub.closes = 0) : Owned next.fds (claims next) := by
  cases hcore with
  | idle hfds hheld hhubs =>
      rw [hfds, claims_congr hheld hhubs]
      exact hsound.owned
  | acquire n hfree hfds hheld hhubs =>
      rw [hfds, claims_held hheld hhubs]
      exact hsound.owned.acquire hfree _ _
  | release file n hholds hfds hheld hhubs =>
      rw [hfds, claims_held hheld hhubs]
      have hclaim : claims w (.other file) = some (n, file) := by simp [claims, hholds]
      exact hsound.owned.release hclaim
  | create name file n hholds hfds hheld hhubs =>
      have hclaims : claims next = update (update (claims w) (.other file) none)
          (.hub w.nextHub) (some (n, file)) := by
        funext c
        cases c with
        | hub i =>
            by_cases hi : i = w.nextHub
            · subst hi
              simp [claims, hhubs, create]
            · rw [update_of_ne (by simpa using hi),
                update_of_ne (Party.hub_ne_other i file), claims, claims, hhubs,
                update_of_ne hi]
        | other file' =>
            rw [update_of_ne (Party.hub_ne_other w.nextHub file').symm]
            by_cases heq : file' = file
            · subst heq
              simp [claims, hheld]
            · rw [update_of_ne (by simpa using heq), claims, claims, hheld, update_of_ne heq]
      rw [hfds, hclaims]
      have hclaim : claims w (.other file) = some (n, file) := by simp [claims, hholds]
      exact hsound.owned.transfer hclaim
  | hub i act hub hub' hhub hstep hfds hheld hhubs =>
      rw [hfds, claims_hub_step hhub hstep hheld hhubs]
      cases hcloses : act.closes with
      | true =>
          have hopen := hfirst i act hub rfl hcloses hhub
          exact hsound.owned.release (claims_hub hhub hopen)
      | false => exact hsound.owned

theorem core_hub {w next : World} {act : Option (Nat × Act)} (hcore : Core w next act)
    {i : Nat} {hub' : Hub} (hnext : next.hubs i = some hub') :
    w.hubs i = some hub' ∨ (∃ name fd file, hub' = create name fd file) ∨
      ∃ a hub, act = some (i, a) ∧ w.hubs i = some hub ∧ ConsoleHub.step hub a = some hub' := by
  cases hcore with
  | idle hfds hheld hhubs => exact .inl (hhubs ▸ hnext)
  | acquire n hfree hfds hheld hhubs => exact .inl (hhubs ▸ hnext)
  | release file n hholds hfds hheld hhubs => exact .inl (hhubs ▸ hnext)
  | create name file n hholds hfds hheld hhubs =>
      rw [hhubs] at hnext
      by_cases hi : i = w.nextHub
      · rw [hi, update_self] at hnext
        cases hnext
        exact .inr (.inl ⟨name, n, file, rfl⟩)
      · rw [update_of_ne hi] at hnext
        exact .inl hnext
  | hub j act hub stepped hhub hstep hfds hheld hhubs =>
      rw [hhubs] at hnext
      by_cases hi : i = j
      · subst hi
        rw [update_self] at hnext
        cases hnext
        exact .inr (.inr ⟨act, hub, rfl, hhub, hstep⟩)
      · rw [update_of_ne hi] at hnext
        exact .inl hnext

theorem core_forall {w next : World} {act : Option (Nat × Act)} {P : Hub → Prop}
    (hcore : Core w next act) (hnew : ∀ name fd file, P (create name fd file))
    (hstep : ∀ i a hub hub', act = some (i, a) → w.hubs i = some hub → P hub →
      ConsoleHub.step hub a = some hub' → P hub')
    (h : ∀ i hub, w.hubs i = some hub → P hub) : ∀ i hub, next.hubs i = some hub → P hub := by
  intro i hub' hnext
  rcases core_hub hcore hnext with hold | ⟨name, fd, file, rfl⟩ | ⟨a, hub, hact, hhub, hstepped⟩
  · exact h i hub' hold
  · exact hnew name fd file
  · exact hstep i a hub hub' hact hhub (h i hub hhub) hstepped

theorem core_fresh {w next : World} {act : Option (Nat × Act)} (hcore : Core w next act)
    (hfresh : ∀ i, w.nextHub ≤ i → w.hubs i = none) :
    ∀ i, next.nextHub ≤ i → next.hubs i = none := by
  intro i hi
  cases hcore with
  | idle _ _ hhubs hnext => rw [hhubs, hfresh i (hnext ▸ hi)]
  | acquire _ _ _ _ hhubs hnext => rw [hhubs, hfresh i (hnext ▸ hi)]
  | release _ _ _ _ _ hhubs hnext => rw [hhubs, hfresh i (hnext ▸ hi)]
  | create name file n hholds hfds hheld hhubs hnext =>
      rw [hnext] at hi
      rw [hhubs, update_of_ne (by omega), hfresh i (by omega)]
  | hub j act hub hub' hhub hstep hfds hheld hhubs hnext =>
      have hne : i ≠ j := by
        rintro rfl
        rw [hfresh i (hnext ▸ hi)] at hhub
        cases hhub
      rw [hhubs, update_of_ne hne, hfresh i (hnext ▸ hi)]

theorem step_sound {w next : World} {label : Label} (hsound : Sound w)
    (hfirst : ClosesFirst w label) (h : step w label = some next) : Sound next where
  owned := core_owned hsound (step_core h) hfirst
  accounted := core_forall (step_core h) create_accounted
    (fun _ _ _ _ _ _ hinv hstep => step_accounted hinv hstep) hsound.accounted
  fresh := core_fresh (step_core h) hsound.fresh

def EndsOneWayStep (w : World) (label : Label) : Prop :=
  ∀ i act hub, hubAct w label = some (i, act) → w.hubs i = some hub → EndsOneWay hub act

/-- No hub has closed its descriptor twice, and the number of a hub that has yet
to close it still stands for what the hub was created with. -/
def ClosedOnce (w : World) : Prop :=
  ∀ i hub, w.hubs i = some hub →
    hub.closes ≤ 1 ∧ (hub.closes = 0 → w.fds hub.fd = some hub.file)

theorem closesFirst_of_endsOneWay {w next : World} {label : Label} (hsound : Sound w)
    (honeWay : ∀ i hub, w.hubs i = some hub → OneWay hub) (hguard : EndsOneWayStep w label)
    (h : step w label = some next) : ClosesFirst w label := by
  intro i act hub hact hcloses hhub
  have hcore := step_core h
  rw [hact] at hcore
  cases hcore with
  | hub _ _ here hub' hhere hstep =>
      obtain rfl : hub = here := Option.some.inj (hhub.symm.trans hhere)
      have hnext : hub'.closes ≤ 1 :=
        closes_le_one (step_accounted (hsound.accounted i hub hhub) hstep)
          (step_oneWay (honeWay i hub hhub) (hguard i act hub hact hhub) hstep)
      have hcount := (step_frame hstep).closes
      rw [hcloses, Bool.toNat_true] at hcount
      omega

structure Disciplined (w : World) : Prop where
  sound : Sound w
  oneWay : ∀ i hub, w.hubs i = some hub → OneWay hub

theorem step_disciplined (w : World) (label : Label) (next : World) (hinv : Disciplined w)
    (hguard : EndsOneWayStep w label) (h : step w label = some next) : Disciplined next := by
  obtain ⟨hsound, honeWay⟩ := hinv
  refine ⟨step_sound hsound (closesFirst_of_endsOneWay hsound honeWay hguard h) h, ?_⟩
  refine core_forall (step_core h) create_oneWay ?_ honeWay
  intro i act hub hub' hact hhub hinv hstepped
  exact step_oneWay hinv (hguard i act hub hact hhub) hstepped

/-- In every run in which no hub is both shut down and left by its reader, and
none is shut down twice, each descriptor is closed once at most. -/
theorem closedOnce_of_endsOneWay {w : World} {labels : List Label}
    (hrun : GuardedRun step EndsOneWayStep initial labels w) : ClosedOnce w := by
  have hinv : Disciplined w := hrun.invariant step_disciplined ⟨initial_sound, nofun⟩
  intro i hub hhub
  have hsound := hinv.sound
  refine ⟨closes_le_one (hsound.accounted i hub hhub) (hinv.oneWay i hub hhub), fun hopen => ?_⟩
  exact hsound.owned.isOpen (claims_hub hhub hopen)

/-- A console whose socket disappears while the reader waits for output. -/
def shutdownRun : List Label :=
  [.acquire 5, .getOrCreate "lab01" 0 none, .hub 0 .test, .listener (.disappeared "lab01"),
    .listener .stop, .listener .close]

theorem closedOnce_shutdownRun :
    ∃ w, exec step initial shutdownRun = some w ∧ ClosedOnce w := by
  have hidle : ∀ {w label}, hubAct w label = none → EndsOneWayStep w label := by
    intro w label h i act hub hact
    rw [h] at hact
    cases hact
  have hrun : ∃ w, exec step initial shutdownRun = some w ∧
      GuardedRun step EndsOneWayStep initial shutdownRun w := by
    refine ⟨_, rfl, .cons (hidle rfl) rfl <| .cons (hidle rfl) rfl <| .cons ?_ rfl <|
      .cons (hidle rfl) rfl <| .cons ?_ rfl <| .cons ?_ rfl <| .nil _⟩
    · rintro i act hub hact hhub
      cases hact
      cases hhub
      exact ⟨nofun, nofun⟩
    · rintro i act hub hact hhub
      cases hact
      cases hhub
      exact ⟨fun _ => ⟨rfl, rfl⟩, nofun⟩
    · rintro i act hub hact hhub
      cases hact
      cases hhub
      exact ⟨nofun, nofun⟩
  obtain ⟨w, hexec, hrun⟩ := hrun
  exact ⟨w, hexec, closedOnce_of_endsOneWay hrun⟩

/-- The number goes to another client, and the reader's exit closes it again. -/
def doubleCloseRun : List Label :=
  shutdownRun ++ [.hub 0 (.read []), .hub 0 .fail, .hub 0 .clear, .acquire 5, .hub 0 .readerClose]

theorem doubleCloseRun_closes_twice :
    ∃ w hub, Run step initial doubleCloseRun w ∧ w.hubs 0 = some hub ∧ hub.closes = 2 ∧
      w.held 1 = some 5 ∧ w.fds 5 = none ∧ ¬ ClosedOnce w := by
  refine ⟨_, _, run_of_exec rfl, rfl, rfl, rfl, rfl, fun h => ?_⟩
  exact absurd (h 0 _ rfl).1 (by decide)

end Vnctlsd.HubWorld
