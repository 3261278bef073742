import Vnctlsd.Hub.HubRegistry
import Vnctlsd.Hub.Descriptors

/-! The worker's threads use the hub registry by its operations only, so what
holds of every order of these holds of the worker. -/
namespace Vnctlsd.HubWorld
open Function Vnctlsd.Library Vnctlsd.Library.Transition ConsoleHub

def entry (hub : Hub) : HubRegistry.Entry := ⟨hub.name, hub.file, hub.done⟩

/-- The first hub of a teardown counts as shut down once it is signalled. -/
def yetToShutDown : List Nat × Bool → List Nat
  | (hubs, false) => hubs
  | (hubs, true) => hubs.tail

/-- A descriptor once passed on is held by no other code again. -/
structure Refines (w : World) (s : HubRegistry.State) : Prop where
  created : ∀ i, s.created i = (w.hubs i).map entry
  nextHub : s.nextHub = w.nextHub
  hubs : s.hubs = w.registry
  teardown : s.teardown = w.teardown.map yetToShutDown
  passed : ∀ file ∈ s.passed, w.held file = none ∧ file < w.nextFile
  held : ∀ file n, w.held file = some n → file < w.nextFile

theorem initial_refines : Refines initial HubRegistry.initial where
  created := fun _ => rfl
  nextHub := rfl
  hubs := rfl
  teardown := rfl
  passed := nofun
  held := nofun

theorem entry_step {hub next : Hub} {act : Act} (h : ConsoleHub.step hub act = some next) :
    entry next = entry hub ∨ entry next = { entry hub with done := true } := by
  have hframe := step_frame h
  simp only [entry, hframe.name, hframe.file]
  cases hdone : hub.done with
  | true => exact .inr (by rw [hframe.done (.inl hdone)])
  | false =>
      cases next.done with
      | true => exact .inr rfl
      | false => exact .inl rfl

theorem get_refines {w : World} {s : HubRegistry.State} (h : Refines w s) (name : String) :
    HubRegistry.get s name = get w name := by
  unfold HubRegistry.get get HubRegistry.isDone
  rw [h.hubs]
  cases hname : w.registry.get? name with
  | none => rfl
  | some i =>
      simp only [h.created i, Option.bind_eq_bind, Option.bind_some]
      cases w.hubs i with
      | none => rfl
      | some hub => rfl

theorem removeIfDone_refines {w : World} {s : HubRegistry.State} (h : Refines w s)
    (hinv : HubRegistry.Inv s) (name : String) :
    Refines { w with registry := removeIfDone w name } (HubRegistry.removeIfDone s name) := by
  unfold HubRegistry.removeIfDone removeIfDone HubRegistry.isDone
  rw [h.hubs]
  cases hname : w.registry.get? name with
  | none => exact { h with }
  | some i =>
      obtain ⟨found, hfound, -⟩ := hinv.named name i (h.hubs ▸ hname)
      have hcreated := h.created i
      rw [hfound] at hcreated
      obtain ⟨hub, hhub, rfl⟩ := Option.map_eq_some_iff.mp hcreated.symm
      simp only [hfound, hhub, Option.bind_some, entry]
      split
      · exact { h with hubs := rfl }
      · exact { h with }

theorem held_forgotten {w : World} {s : HubRegistry.State} (h : Refines w s) (file : Nat) :
    (∀ other ∈ s.passed, update w.held file none other = none ∧ other < w.nextFile) ∧
      ∀ other n, update w.held file none other = some n → other < w.nextFile := by
  constructor
  · intro other hmem
    obtain ⟨hheld, hbound⟩ := h.passed other hmem
    refine ⟨?_, hbound⟩
    by_cases heq : other = file
    · rw [heq, update_self]
    · rw [update_of_ne heq, hheld]
  · intro other n hother
    by_cases heq : other = file
    · rw [heq, update_self] at hother
      cases hother
    · rw [update_of_ne heq] at hother
      exact h.held other n hother

theorem getOrCreate_refines {w : World} {s : HubRegistry.State} (h : Refines w s)
    {name : String} {file n : Nat} (hheld : w.held file = some n)
    (caller : Option (String × Bool)) :
    Refines (getOrCreate w name file n caller) (HubRegistry.getOrCreate s name file).1 := by
  obtain ⟨hforgotten, hheld'⟩ := held_forgotten h file
  have hpassed : ∀ other ∈ file :: s.passed,
      update w.held file none other = none ∧ other < w.nextFile := by
    intro other hmem
    rcases List.mem_cons.mp hmem with rfl | hmem
    · exact ⟨update_self .., h.held _ n hheld⟩
    · exact hforgotten other hmem
  unfold HubRegistry.getOrCreate getOrCreate
  rw [get_refines h]
  cases get w name with
  | some i => exact { h with passed := hpassed, held := hheld' }
  | none =>
      refine ⟨?_, ?_, ?_, h.teardown, hpassed, hheld'⟩
      · intro i
        simp only [h.nextHub]
        by_cases hi : i = w.nextHub
        · subst hi
          simp [entry, create]
        · simp only [update_of_ne hi, h.created i]
      · simp only [h.nextHub]
      · simp only [h.nextHub, h.hubs]

/-- A step matched by the registry's own steps. -/
def Matched (s : HubRegistry.State) (next : World) : Prop :=
  ∃ labels s', Run HubRegistry.step s labels s' ∧ Refines next s'

theorem Matched.stays {s : HubRegistry.State} {next : World} (h : Refines next s) :
    Matched s next :=
  ⟨[], s, .nil _, h⟩

theorem Matched.one {s s' : HubRegistry.State} {next : World} (label : HubRegistry.Label)
    (hstep : HubRegistry.step s label = some s') (h : Refines next s') : Matched s next :=
  ⟨[label], s', .cons hstep (.nil _), h⟩

theorem onHub_created {w : World} {s : HubRegistry.State} (h : Refines w s) {i : Nat} {act : Act}
    {hub hub' : Hub} (hhub : w.hubs i = some hub) (hstep : ConsoleHub.step hub act = some hub') :
    (∀ j, s.created j = (update w.hubs i (some hub') j).map entry) ∨
      ∀ j, (HubRegistry.setDone s i).created j = (update w.hubs i (some hub') j).map entry := by
  have hcreated := h.created i
  rw [hhub, Option.map_some] at hcreated
  rcases entry_step hstep with hsame | hdone
  · refine .inl fun j => ?_
    by_cases hj : j = i
    · subst hj
      rw [update_self, Option.map_some, hsame, hcreated]
    · rw [update_of_ne hj, h.created j]
  · refine .inr fun j => ?_
    unfold HubRegistry.setDone
    by_cases hj : j = i
    · subst hj
      simp only [update_self, hcreated, Option.map_some, hdone]
    · simp only [update_of_ne hj, h.created j]

theorem onHub_matched {w next : World} {s : HubRegistry.State} (h : Refines w s) {i : Nat}
    {act : Act} (hstep : onHub w i act = some next) : Matched s next := by
  obtain ⟨hub, hub', hhub, hstepped, rfl⟩ := onHub_spec hstep
  rcases onHub_created h hhub hstepped with hsame | hdone
  · exact .stays { h with created := hsame }
  · exact .one (.becomesDone i) rfl { h with created := hdone }

theorem plan_matched {w planned : World} {s : HubRegistry.State} {label : Label}
    {hubStep : Option (Nat × Act)} (h : Refines w s) (hinv : HubRegistry.Inv s)
    (hlabel : label ≠ .teardown .stop) (hplan : plan w label = some (planned, hubStep)) :
    Matched s planned := by
  have hteardown := h.teardown
  cases plan_cases hplan with
  | @acquire n hfree =>
      refine .stays { h with passed := ?_, held := ?_ }
      · intro file hmem
        obtain ⟨hheld, hbound⟩ := h.passed file hmem
        have hsame := update_of_ne (Nat.ne_of_lt hbound) (some n) w.held
        exact ⟨hsame.trans hheld, Nat.lt_succ_of_lt hbound⟩
      · intro file n' hheld
        by_cases heq : file = w.nextFile
        · exact heq ▸ Nat.lt_succ_self _
        · have hsame := update_of_ne heq (some n) w.held
          exact Nat.lt_succ_of_lt (h.held file n' (hsame.symm.trans hheld))
  | @release file =>
      obtain ⟨hpassed, hheld'⟩ := held_forgotten h file
      exact .stays { h with passed := hpassed, held := hheld' }
  | @getOrCreate name file n caller hopen hready hheld =>
      refine .one (.getOrCreate name file) (if_pos ⟨?_, ?_⟩) (getOrCreate_refines h hheld caller)
      · rw [hteardown, hopen]
        rfl
      · intro hmem
        rw [(h.passed file hmem).1] at hheld
        cases hheld
  | @session sid act moved hubStep hsession =>
      cases sessionStep_cases hsession with
      | leave hpc hopen =>
          rw [hopen] at hteardown
          refine .one (.removeIfDone (w.threads sid).console) (if_pos hteardown) ?_
          exact { removeIfDone_refines h hinv _ with }
      | _ => exact .stays { h with }
  | hub => exact .stays h
  | @listener act moved hubStep hfound =>
      cases act with
      | remove =>
          simp only [listenerStep] at hfound
          split at hfound
          · rename_i name hlistener
            split at hfound <;> cases hfound
            rename_i hready
            rw [hready] at hteardown
            refine .one (.removeIfDone name) (if_pos hteardown) ?_
            simp only [registryAfter, hlistener]
            exact { removeIfDone_refines h hinv name with }
          · cases hfound
      | _ => exact .stays { h with }
  | @teardown act moved hubStep hfound =>
      cases act with
      | stop => exact absurd rfl hlabel
      | enter =>
          simp only [teardownStep] at hfound
          split at hfound <;> cases hfound
          rename_i hready
          rw [hready] at hteardown
          refine .one .enterTeardown (if_pos hteardown) { h with teardown := ?_ }
          rw [h.hubs]
          rfl
      | close =>
          simp only [teardownStep] at hfound
          split at hfound
          · rename_i i rest hready
            cases hfound
            rw [hready] at hteardown
            exact .stays { h with teardown := hteardown }
          · cases hfound
      | leave =>
          simp only [teardownStep] at hfound
          split at hfound
          · rename_i flag hready
            cases hfound
            have hnil : s.teardown = some [] := by
              rw [hteardown, hready]
              cases flag <;> rfl
            have hleave : HubRegistry.step s .leaveTeardown =
                some { s with hubs := .empty, teardown := none } := by
              simp only [HubRegistry.step, hnil]
            exact .one .leaveTeardown hleave { h with teardown := rfl, hubs := rfl }
          · cases hfound

theorem step_matched {w next : World} {s : HubRegistry.State} {label : Label} (h : Refines w s)
    (hinv : HubRegistry.Inv s) (hstep : step w label = some next) : Matched s next := by
  obtain ⟨⟨planned, hubStep⟩, hplan, hstep⟩ := Option.bind_eq_some_iff.mp hstep
  by_cases hlabel : label = .teardown .stop
  · subst hlabel
    obtain ⟨found, hfound, heq⟩ := Option.map_eq_some_iff.mp hplan
    cases heq
    simp only [teardownStep] at hfound
    split at hfound
    · rename_i i rest hready
      cases hfound
      obtain ⟨hub, hub', hhub, hstepped, rfl⟩ := onHub_spec hstep
      have hteardown := h.teardown
      rw [hready] at hteardown
      refine .one .shutdownNext (by simp only [HubRegistry.step, hteardown]; rfl) ?_
      refine { h with created := ?_, teardown := rfl }
      cases hstepped
      intro j
      have hcreated := h.created i
      have hhub : w.hubs i = some hub := hhub
      by_cases hj : j = i
      · subst hj
        simp [HubRegistry.setDone, hcreated, hhub, entry]
      · simp only [HubRegistry.setDone, update_of_ne hj, h.created j]
    · cases hfound
  · obtain ⟨labels, s', hrun, hplanned⟩ := plan_matched h hinv hlabel hplan
    cases hubStep with
    | none =>
        cases hstep
        exact ⟨labels, s', hrun, hplanned⟩
    | some found =>
        obtain ⟨labels', s'', hrun', hnext⟩ := onHub_matched hplanned hstep
        exact ⟨labels ++ labels', s'', hrun.append hrun', hnext⟩

/-- Every run of the worker is a run of its hub registry. -/
theorem run_matched {w : World} {labels : List Label} (hrun : Run step initial labels w) :
    ∃ labels' s, Run HubRegistry.step HubRegistry.initial labels' s ∧ Refines w s := by
  have hmatched : ∀ w s label next, Refines w s ∧ HubRegistry.Inv s →
      step w label = some next → ∃ labels' s', Run HubRegistry.step s labels' s' ∧
        Refines next s' ∧ HubRegistry.Inv s' := by
    rintro w s label next ⟨hrel, hinv⟩ hstep
    obtain ⟨labels', s', hrun', hnext⟩ := step_matched hrel hinv hstep
    exact ⟨labels', s', hrun', hnext, hrun'.invariant HubRegistry.step_inv hinv⟩
  obtain ⟨labels', s, hrun', hrel, -⟩ :=
    hrun.simulated hmatched ⟨initial_refines, HubRegistry.initial_inv⟩
  exact ⟨labels', s, hrun', hrel⟩

theorem fresh_of_run {w : World} {labels : List Label} (hrun : Run step initial labels w) :
    ∀ i, w.nextHub ≤ i → w.hubs i = none := by
  obtain ⟨labels', s, hrun', hrel⟩ := run_matched hrun
  intro i hi
  have hcreated := hrel.created i
  rw [(HubRegistry.inv_of_run hrun').fresh i (hrel.nextHub ▸ hi)] at hcreated
  exact Option.map_eq_none_iff.mp hcreated.symm

theorem accounted_of_run {w : World} {labels : List Label} (hrun : Run step initial labels w) :
    ∀ i hub, w.hubs i = some hub → Accounted hub := by
  have hstep : ∀ (w : World) label next, (∀ i hub, w.hubs i = some hub → Accounted hub) →
      step w label = some next → ∀ i hub, next.hubs i = some hub → Accounted hub := by
    intro w label next hinv h
    exact core_forall (step_core h) create_accounted
      (fun _ _ _ _ _ _ hbefore hstepped => step_accounted hbefore hstepped) hinv
  exact @Run.invariant _ _ _ (fun w => ∀ i hub, w.hubs i = some hub → Accounted hub) hstep
    _ _ _ hrun nofun

/-- A hub after a step: as it was, made by the step, or moved by it. -/
theorem step_hub {w next : World} {label : Label} (h : step w label = some next) {i : Nat}
    {hub' : Hub} (hnext : next.hubs i = some hub') :
    (w.hubs i = some hub' ∧ ∀ act, hubAct w label ≠ some (i, act)) ∨
      (∃ name n file caller, label = .getOrCreate name file caller ∧ get w name = none ∧
        i = w.nextHub ∧ hub' = create name n file ∧
        next.threads = enter w.threads caller name i) ∨
      ∃ act hub, hubAct w label = some (i, act) ∧ w.hubs i = some hub ∧
        ConsoleHub.step hub act = some hub' := by
  have hcore := step_core h
  cases hact : hubAct w label with
  | some found =>
      obtain ⟨j, act⟩ := found
      rw [hact] at hcore
      cases hcore with
      | hub _ _ hub after hhub hstep hfds hheld hhubs =>
          rw [hhubs] at hnext
          by_cases hij : i = j
          · subst hij
            rw [update_self] at hnext
            cases hnext
            exact .inr (.inr ⟨act, hub, rfl, hhub, hstep⟩)
          · rw [update_of_ne hij] at hnext
            refine .inl ⟨hnext, fun act' heq => hij ?_⟩
            exact (Prod.mk.inj (Option.some.inj heq)).1.symm
  | none =>
      rw [hact] at hcore
      obtain ⟨⟨planned, hubStep⟩, hplan, h⟩ := Option.bind_eq_some_iff.mp h
      have hnone : hubStep = none := by
        rw [hubAct, hplan] at hact
        exact hact
      subst hnone
      cases h
      have hcases : planned.hubs = w.hubs ∨ ∃ name n file caller,
          label = .getOrCreate name file caller ∧ get w name = none ∧
          planned.hubs = update w.hubs w.nextHub (some (create name n file)) ∧
          planned.threads = enter w.threads caller name w.nextHub := by
        cases plan_cases hplan with
        | @getOrCreate name file n caller =>
            unfold getOrCreate
            split
            · exact .inl rfl
            · exact .inr ⟨name, n, file, caller, rfl, ‹_›, rfl, rfl⟩
        | acquire | release | session | listener | teardown => exact .inl rfl
      rcases hcases with hsame | ⟨name, n, file, caller, hlabel, hget, hhubs, hthreads⟩
      · exact .inl ⟨hsame ▸ hnext, fun act heq => by cases heq⟩
      · rw [hhubs] at hnext
        by_cases hi : i = w.nextHub
        · rw [hi, update_self] at hnext
          cases hnext
          exact .inr (.inl ⟨name, n, file, caller, hlabel, hget, hi, rfl, hi ▸ hthreads⟩)
        · rw [update_of_ne hi] at hnext
          exact .inl ⟨hnext, fun act heq => by cases heq⟩

/-- Each hub of the worker is in a run of its own. -/
theorem hub_run_of_run {w : World} {labels : List Label} (hrun : Run step initial labels w) :
    ∀ i hub, w.hubs i = some hub → ∃ name fd file acts,
      Run ConsoleHub.step (create name fd file) acts hub := by
  have hstep : ∀ (w : World) label next, (∀ i hub, w.hubs i = some hub → ∃ name fd file acts,
      Run ConsoleHub.step (create name fd file) acts hub) → step w label = some next →
      ∀ i hub, next.hubs i = some hub → ∃ name fd file acts,
        Run ConsoleHub.step (create name fd file) acts hub := by
    intro w label next hinv h i hub' hnext
    rcases step_hub h hnext with ⟨hsame, -⟩ | ⟨name, n, file, -, -, -, -, rfl, -⟩ |
      ⟨act, hub, -, hhub, hstepped⟩
    · exact hinv i hub' hsame
    · exact ⟨name, n, file, [], .nil _⟩
    · obtain ⟨name, fd, file, acts, hacts⟩ := hinv i hub hhub
      exact ⟨name, fd, file, acts ++ [act], hacts.append (.cons hstepped (.nil _))⟩
  exact @Run.invariant _ _ _ (fun w => ∀ i hub, w.hubs i = some hub → ∃ name fd file acts,
    Run ConsoleHub.step (create name fd file) acts hub) hstep _ _ _ hrun nofun

/-- In the worker too `get` answers with the one hub of the name that is not done. -/
theorem get_eq_some_iff {w : World} {labels : List Label} (hrun : Run step initial labels w)
    {name : String} {i : Nat} :
    get w name = some i ↔ ∃ hub, w.hubs i = some hub ∧ hub.name = name ∧ hub.done = false := by
  obtain ⟨labels', s, hrun', hrel⟩ := run_matched hrun
  rw [← get_refines hrel, HubRegistry.get_eq_some_iff (HubRegistry.inv_of_run hrun')]
  unfold HubRegistry.Live
  rw [hrel.created i]
  constructor
  · rintro ⟨found, ⟨hfound, hlive⟩, hname⟩
    obtain ⟨hub, hhub, rfl⟩ := Option.map_eq_some_iff.mp hfound
    exact ⟨hub, hhub, hname, hlive⟩
  · rintro ⟨hub, hhub, hname, hlive⟩
    exact ⟨entry hub, ⟨by rw [hhub]; rfl, hlive⟩, hname⟩

end Vnctlsd.HubWorld
