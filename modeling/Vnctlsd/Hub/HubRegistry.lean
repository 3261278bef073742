import Mathlib.Logic.Function.Basic
import Vnctlsd.Library.Dict
import Vnctlsd.Library.Transition

/-! The hub registry on its own: its operations under its lock, called by any
thread at any time, while hubs become done outside of it. -/
namespace Vnctlsd.HubRegistry
open Function Vnctlsd.Library Vnctlsd.Library.Transition

/-- Of a hub the registry sees its name, the descriptor it was given and whether
it is done. -/
structure Entry where
  name : String
  file : Nat
  done : Bool
  deriving DecidableEq

/-- `created` holds every hub there has ever been.  While `teardown` is set,
`teardown_all` holds the lock: the hubs it has yet to shut down.  `passed` are
the descriptors given to `get_or_create` and `discarded` those it closed; no
code reads these. -/
structure State where
  created : Nat → Option Entry
  nextHub : Nat
  hubs : Dict String Nat
  teardown : Option (List Nat)
  passed : List Nat
  discarded : List Nat

def initial : State where
  created := fun _ => none
  nextHub := 0
  hubs := .empty
  teardown := none
  passed := []
  discarded := []

def isDone (s : State) (i : Nat) : Bool :=
  match s.created i with
  | some hub => hub.done
  | none => true

def get (s : State) (name : String) : Option Nat :=
  match s.hubs.get? name with
  | some i => if isDone s i then none else some i
  | none => none

/-- The hub, and whether it is a new one.  Names are strings, as the annotations have
it, and the thread of a new hub starts: a name that cannot be hashed, which
`PushListener` knows as `unregistered`, and `Thread.start` that raises are left out. -/
def getOrCreate (s : State) (name : String) (file : Nat) : State × (Nat × Bool) :=
  match get s name with
  | some i => ({ s with
      passed := file :: s.passed
      discarded := file :: s.discarded }, (i, false))
  | none => ({ s with
      created := update s.created s.nextHub (some ⟨name, file, false⟩)
      nextHub := s.nextHub + 1
      hubs := s.hubs.set name s.nextHub
      passed := file :: s.passed }, (s.nextHub, true))

def removeIfDone (s : State) (name : String) : State :=
  match s.hubs.get? name with
  | some i => if isDone s i then { s with hubs := s.hubs.erase name } else s
  | none => s

def setDone (s : State) (i : Nat) : State :=
  { s with created := update s.created i ((s.created i).map fun hub => { hub with done := true }) }

inductive Label where
  | getOrCreate (name : String) (file : Nat)
  | get (name : String)
  | removeIfDone (name : String)
  | becomesDone (i : Nat)
  | enterTeardown
  | shutdownNext
  | leaveTeardown
  deriving DecidableEq

def step (s : State) : Label → Option State
  | .getOrCreate name file =>
      if s.teardown = none ∧ file ∉ s.passed then some (getOrCreate s name file).1 else none
  | .get _ => if s.teardown = none then some s else none
  | .removeIfDone name => if s.teardown = none then some (removeIfDone s name) else none
  | .becomesDone i => some (setDone s i)
  | .enterTeardown =>
      if s.teardown = none then
        some { s with teardown := some (s.hubs.entries.map Prod.snd) }
      else none
  | .shutdownNext =>
      match s.teardown with
      | some (i :: rest) => some { setDone s i with teardown := some rest }
      | _ => none
  | .leaveTeardown =>
      match s.teardown with
      | some [] => some { s with hubs := .empty, teardown := none }
      | _ => none

def Live (s : State) (i : Nat) (hub : Entry) : Prop := s.created i = some hub ∧ hub.done = false

/-- At most one hub of a name is not done. -/
def OneLive (s : State) : Prop :=
  ∀ i j left right, Live s i left → Live s j right → left.name = right.name → i = j

def Registered (s : State) : Prop := ∀ i hub, Live s i hub → s.hubs.get? hub.name = some i

def Owns (s : State) (file i : Nat) : Prop := ∃ hub, s.created i = some hub ∧ hub.file = file

/-- A descriptor was closed by `get_or_create` itself or went to one hub. -/
def Accounted (s : State) : Prop :=
  ∀ file ∈ s.passed, (file ∈ s.discarded ∧ ∀ i, ¬ Owns s file i) ∨
    (file ∉ s.discarded ∧ ∃ i, Owns s file i ∧ ∀ j, Owns s file j → j = i)

/-- `locked` is why `teardown_all` may forget every hub: it has shut down each of
them while nobody else could register one. -/
structure Inv (s : State) : Prop where
  registered : Registered s
  named : ∀ name i, s.hubs.get? name = some i → ∃ hub, s.created i = some hub ∧ hub.name = name
  fresh : ∀ i, s.nextHub ≤ i → s.created i = none
  locked : ∀ rest, s.teardown = some rest → ∀ i hub, Live s i hub → i ∈ rest
  owned : ∀ file i, Owns s file i → file ∈ s.passed
  discarded : ∀ file ∈ s.discarded, file ∈ s.passed
  accounted : Accounted s

theorem initial_inv : Inv initial where
  registered := fun _ _ h => nomatch h.1
  named := nofun
  fresh := fun _ _ => rfl
  locked := nofun
  owned := fun _ _ ⟨_, h, _⟩ => nomatch h
  discarded := nofun
  accounted := nofun

theorem isDone_of_live {s : State} {i : Nat} {hub : Entry} (h : Live s i hub) :
    isDone s i = false := by
  simp [isDone, h.1, h.2]

/-- `get` answers with the hub of the name that is not done, if there is one. -/
theorem get_eq_some_iff {s : State} (hinv : Inv s) {name : String} {i : Nat} :
    get s name = some i ↔ ∃ hub, Live s i hub ∧ hub.name = name := by
  unfold get
  constructor
  · intro h
    split at h
    · rename_i j hname
      obtain ⟨hub, hcreated, hubName⟩ := hinv.named name j hname
      simp only [isDone, hcreated] at h
      split at h
      · cases h
      · cases h
        exact ⟨hub, ⟨hcreated, Bool.eq_false_iff.mpr ‹_›⟩, hubName⟩
    · cases h
  · rintro ⟨hub, hlive, rfl⟩
    rw [hinv.registered i hub hlive]
    simp only [isDone_of_live hlive, Bool.false_eq_true, if_false]

theorem get_eq_none_iff {s : State} (hinv : Inv s) {name : String} :
    get s name = none ↔ ∀ i hub, Live s i hub → hub.name ≠ name := by
  rw [← not_iff_not, ← ne_eq, Option.ne_none_iff_exists']
  constructor
  · rintro ⟨i, hget⟩ hall
    obtain ⟨hub, hlive, hname⟩ := (get_eq_some_iff hinv).mp hget
    exact hall i hub hlive hname
  · intro hsome
    by_contra hnone
    apply hsome
    intro i hub hlive hname
    exact hnone ⟨i, (get_eq_some_iff hinv).mpr ⟨hub, hlive, hname⟩⟩

theorem oneLive_of_registered {s : State} (h : Registered s) : OneLive s := by
  intro i j left right hleft hright hname
  have hi := h i left hleft
  have hj := h j right hright
  rw [hname, hj] at hi
  exact (Option.some.inj hi).symm

/-- Hubs only become done and names only leave the registry where their hub is
done: what such a step has to show to keep the invariant. -/
theorem inv_of_shrinks {s next : State} (hinv : Inv s)
    (hcreated : ∀ i, next.created i = s.created i ∨
      next.created i = (s.created i).map fun hub => { hub with done := true })
    (hnext : next.nextHub = s.nextHub) (hpassed : next.passed = s.passed)
    (hdiscarded : next.discarded = s.discarded)
    (hhubs : ∀ name, next.hubs.get? name = s.hubs.get? name ∨
      next.hubs.get? name = none ∧ ∀ i hub, Live next i hub → hub.name ≠ name)
    (hteardown : ∀ rest, next.teardown = some rest → ∀ i hub, Live next i hub → i ∈ rest) :
    Inv next := by
  have hlive : ∀ i hub, Live next i hub → Live s i hub := by
    rintro i hub ⟨hhub, hdone⟩
    rcases hcreated i with hsame | hdone'
    · exact ⟨hsame ▸ hhub, hdone⟩
    · rw [hdone'] at hhub
      obtain ⟨old, -, rfl⟩ := Option.map_eq_some_iff.mp hhub
      cases hdone
  have howns : ∀ file i, Owns next file i ↔ Owns s file i := by
    intro file i
    unfold Owns
    rcases hcreated i with hsame | hdone
    · rw [hsame]
    · rw [hdone]
      constructor
      · rintro ⟨hub, hhub, hfile⟩
        obtain ⟨old, hold, rfl⟩ := Option.map_eq_some_iff.mp hhub
        exact ⟨old, hold, hfile⟩
      · rintro ⟨hub, hhub, hfile⟩
        exact ⟨_, Option.map_eq_some_iff.mpr ⟨hub, hhub, rfl⟩, hfile⟩
  refine ⟨?_, ?_, ?_, hteardown, ?_, ?_, ?_⟩
  · intro i hub h
    rcases hhubs hub.name with hsame | ⟨-, hnone⟩
    · rw [hsame]
      exact hinv.registered i hub (hlive i hub h)
    · exact absurd rfl (hnone i hub h)
  · intro name i hname
    rcases hhubs name with hsame | ⟨hnone, -⟩
    · obtain ⟨hub, hhub, hubName⟩ := hinv.named name i (hsame ▸ hname)
      rcases hcreated i with hsame | hdone
      · exact ⟨hub, hsame ▸ hhub, hubName⟩
      · exact ⟨{ hub with done := true }, by rw [hdone, hhub]; rfl, hubName⟩
    · rw [hnone] at hname
      cases hname
  · intro i hi
    have hfresh := hinv.fresh i (hnext ▸ hi)
    rcases hcreated i with hsame | hdone
    · rw [hsame, hfresh]
    · rw [hdone, hfresh]
      rfl
  · intro file i h
    rw [hpassed]
    exact hinv.owned file i ((howns file i).mp h)
  · rw [hdiscarded, hpassed]
    exact hinv.discarded
  · unfold Accounted
    simp only [hpassed, hdiscarded, howns]
    exact hinv.accounted

theorem setDone_created (s : State) (i j : Nat) : (setDone s i).created j = s.created j ∨
    (setDone s i).created j = (s.created j).map fun hub => { hub with done := true } := by
  by_cases hj : j = i
  · subst hj
    exact .inr (update_self ..)
  · exact .inl (update_of_ne hj ..)

theorem live_of_setDone {s : State} {i j : Nat} {hub : Entry} (h : Live (setDone s i) j hub) :
    j ≠ i ∧ Live s j hub := by
  obtain ⟨hhub, hdone⟩ := h
  by_cases hj : j = i
  · subst hj
    simp only [setDone, update_self] at hhub
    obtain ⟨old, -, rfl⟩ := Option.map_eq_some_iff.mp hhub
    cases hdone
  · simp only [setDone, update_of_ne hj] at hhub
    exact ⟨hj, hhub, hdone⟩

/-- A descriptor for which there is a hub already is closed at once. -/
theorem discard_inv {s : State} (hinv : Inv s) {file : Nat} (hnew : file ∉ s.passed) :
    Inv { s with passed := file :: s.passed, discarded := file :: s.discarded } := by
  have hunowned : ∀ i, ¬ Owns s file i := fun i h => hnew (hinv.owned file i h)
  refine { hinv with owned := ?_, discarded := ?_, accounted := ?_ }
  · intro other i h
    exact List.mem_cons_of_mem _ (hinv.owned other i h)
  · intro other h
    rcases List.mem_cons.mp h with rfl | h
    · exact List.mem_cons_self ..
    · exact List.mem_cons_of_mem _ (hinv.discarded other h)
  · intro other h
    rcases List.mem_cons.mp h with rfl | h
    · exact .inl ⟨List.mem_cons_self .., hunowned⟩
    · have hne : other ≠ file := fun heq => hnew (heq ▸ h)
      rcases hinv.accounted other h with ⟨hclosed, hnone⟩ | ⟨hopen, howned⟩
      · exact .inl ⟨List.mem_cons_of_mem _ hclosed, hnone⟩
      · exact .inr ⟨by simp [hne, hopen], howned⟩

/-- A name without a live hub gets one, which owns the descriptor. -/
theorem register_inv {s : State} (hinv : Inv s) {name : String} {file : Nat}
    (hunlocked : s.teardown = none) (hnew : file ∉ s.passed) (hget : get s name = none) :
    Inv { s with
      created := update s.created s.nextHub (some ⟨name, file, false⟩)
      nextHub := s.nextHub + 1
      hubs := s.hubs.set name s.nextHub
      passed := file :: s.passed } := by
  have hdiscarded : file ∉ s.discarded := fun h => hnew (hinv.discarded file h)
  have hunowned : ∀ i, ¬ Owns s file i := fun i h => hnew (hinv.owned file i h)
  have hnone := (get_eq_none_iff hinv).mp hget
  have hold : ∀ i hub, s.created i = some hub → i ≠ s.nextHub := by
    rintro i hub hhub rfl
    rw [hinv.fresh _ (Nat.le_refl _)] at hhub
    cases hhub
  have howns : ∀ other i, Owns { s with
      created := update s.created s.nextHub (some ⟨name, file, false⟩)
      nextHub := s.nextHub + 1
      hubs := s.hubs.set name s.nextHub
      passed := file :: s.passed } other i ↔
        (other = file ∧ i = s.nextHub) ∨ Owns s other i := by
    intro other i
    unfold Owns
    by_cases hi : i = s.nextHub
    · subst hi
      simp [hinv.fresh _ (Nat.le_refl _), eq_comm]
    · simp [hi]
  refine ⟨?_, ?_, ?_, ?_, ?_, ?_, ?_⟩
  · rintro i hub ⟨hhub, hdone⟩
    rw [Dict.get?_set]
    by_cases hi : i = s.nextHub
    · subst hi
      simp only [update_self, Option.some.injEq] at hhub
      rw [← hhub, if_pos rfl]
    · simp only [update_of_ne hi] at hhub
      rw [if_neg (hnone i hub ⟨hhub, hdone⟩)]
      exact hinv.registered i hub ⟨hhub, hdone⟩
  · intro other i h
    rw [Dict.get?_set] at h
    split at h
    · cases h
      exact ⟨⟨name, file, false⟩, by simp, by simp_all⟩
    · obtain ⟨hub, hhub, hname⟩ := hinv.named other i h
      exact ⟨hub, by simp only [update_of_ne (hold i hub hhub), hhub], hname⟩
  · intro i hi
    have hi : s.nextHub + 1 ≤ i := hi
    simp only [update_of_ne (show i ≠ s.nextHub by omega)]
    exact hinv.fresh i (by omega)
  · intro rest h
    rw [hunlocked] at h
    cases h
  · intro other i h
    rcases (howns other i).mp h with ⟨rfl, -⟩ | h
    · exact List.mem_cons_self ..
    · exact List.mem_cons_of_mem _ (hinv.owned other i h)
  · intro other h
    exact List.mem_cons_of_mem _ (hinv.discarded other h)
  · intro other h
    simp only [howns]
    rcases List.mem_cons.mp h with rfl | h
    · refine .inr ⟨hdiscarded, s.nextHub, .inl ⟨rfl, rfl⟩, ?_⟩
      rintro j (⟨-, rfl⟩ | hj)
      · rfl
      · exact absurd hj (hunowned j)
    · have hne : other ≠ file := fun heq => hnew (heq ▸ h)
      simpa [hne] using hinv.accounted other h

theorem getOrCreate_inv {s : State} (hinv : Inv s) {name : String} {file : Nat}
    (hunlocked : s.teardown = none) (hnew : file ∉ s.passed) :
    Inv (getOrCreate s name file).1 := by
  unfold getOrCreate
  split
  · exact discard_inv hinv hnew
  · rename_i hget
    exact register_inv hinv hunlocked hnew hget

theorem removeIfDone_inv {s : State} (hinv : Inv s) (name : String) :
    Inv (removeIfDone s name) := by
  unfold removeIfDone
  split
  · rename_i i hname
    split
    · rename_i hdone
      refine inv_of_shrinks hinv (fun _ => .inl rfl) rfl rfl rfl ?_ hinv.locked
      intro other
      simp only [Dict.get?_erase]
      split
      · rename_i heq
        refine .inr ⟨rfl, ?_⟩
        intro j hub hlive hhub
        -- a hub of the name that is not done would be the registered one
        have hlive : Live s j hub := hlive
        have hreg := hinv.registered j hub hlive
        rw [hhub, heq, hname] at hreg
        cases hreg
        rw [isDone_of_live hlive] at hdone
        cases hdone
      · exact .inl rfl
    · exact hinv
  · exact hinv

theorem step_inv (s : State) (label : Label) (next : State) (hinv : Inv s)
    (h : step s label = some next) : Inv next := by
  cases label with
  | getOrCreate name file =>
      simp only [step] at h
      split at h <;> cases h
      rename_i hready
      exact getOrCreate_inv hinv hready.1 hready.2
  | get name =>
      simp only [step] at h
      split at h <;> cases h
      exact hinv
  | removeIfDone name =>
      simp only [step] at h
      split at h <;> cases h
      exact removeIfDone_inv hinv name
  | becomesDone i =>
      cases h
      refine inv_of_shrinks hinv (setDone_created s i) rfl rfl rfl (fun _ => .inl rfl) ?_
      intro rest hrest j hub hlive
      exact hinv.locked rest hrest j hub (live_of_setDone hlive).2
  | enterTeardown =>
      simp only [step] at h
      split at h <;> cases h
      refine { hinv with locked := ?_ }
      intro rest hrest i hub hlive
      cases hrest
      have hmem := Dict.get?_eq_some_iff.mp (hinv.registered i hub hlive)
      exact List.mem_map_of_mem hmem
  | shutdownNext =>
      simp only [step] at h
      split at h
      · rename_i i rest hteardown
        cases h
        refine inv_of_shrinks hinv (setDone_created s i) rfl rfl rfl (fun _ => .inl rfl) ?_
        intro rest' hrest j hub hlive
        cases hrest
        obtain ⟨hne, hbefore⟩ := live_of_setDone hlive
        have hmem := hinv.locked _ hteardown j hub hbefore
        exact (List.mem_cons.mp hmem).resolve_left hne
      · cases h
  | leaveTeardown =>
      simp only [step] at h
      split at h
      · rename_i hteardown
        cases h
        have hnone : ∀ i hub, ¬ Live s i hub := by
          intro i hub hlive
          exact List.not_mem_nil (hinv.locked _ hteardown i hub hlive)
        refine inv_of_shrinks hinv (fun _ => .inl rfl) rfl rfl rfl ?_ nofun
        intro name
        exact .inr ⟨rfl, fun i hub hlive => absurd hlive (hnone i hub)⟩
      · cases h

theorem inv_of_run {s : State} {labels : List Label} (hrun : Run step initial labels s) : Inv s :=
  hrun.invariant step_inv initial_inv

/-- Whatever the threads call in whatever order: one live hub of a name at most,
every live hub under its name, every descriptor closed or with one hub. -/
theorem one_live_hub {s : State} {labels : List Label} (hrun : Run step initial labels s) :
    OneLive s ∧ Registered s ∧ Accounted s := by
  have hinv := inv_of_run hrun
  exact ⟨oneLive_of_registered hinv.registered, hinv.registered, hinv.accounted⟩

/-- A hub ends, a second one takes its place, and a third descriptor is not needed. -/
def respawn : List Label :=
  [.getOrCreate "lab01" 0, .becomesDone 0, .getOrCreate "lab01" 1, .removeIfDone "lab01",
    .getOrCreate "lab01" 2]

theorem one_live_hub_respawn :
    ∃ s, exec step initial respawn = some s ∧ get s "lab01" = some 1 ∧ s.discarded = [2] ∧
      OneLive s ∧ Registered s ∧ Accounted s :=
  ⟨_, rfl, rfl, rfl, @one_live_hub _ respawn (run_of_exec rfl)⟩

end Vnctlsd.HubRegistry
