import Mathlib.Data.List.Basic

/-! Runs of a partial step function and the induction rules for their
invariants.  A label that the step function refuses ends no run: it is not a
step of the system in that state. -/
namespace Vnctlsd.Library.Transition

variable {State : Type u} {Label : Type v} {step : State → Label → Option State}

/-- `Run step start labels finish`: the labels are taken one after another. -/
inductive Run (step : State → Label → Option State) : State → List Label → State → Prop where
  | nil (state : State) : Run step state [] state
  | cons {start next finish : State} {label : Label} {labels : List Label} :
      step start label = some next → Run step next labels finish →
      Run step start (label :: labels) finish

def exec (step : State → Label → Option State) : State → List Label → Option State
  | state, [] => some state
  | state, label :: labels => (step state label).bind fun next => exec step next labels

theorem run_of_exec {labels : List Label} {start finish : State}
    (h : exec step start labels = some finish) : Run step start labels finish := by
  induction labels generalizing start with
  | nil =>
      cases Option.some.inj h
      exact .nil _
  | cons label labels ih =>
      obtain ⟨next, hstep, hrest⟩ := Option.bind_eq_some_iff.mp h
      exact .cons hstep (ih hrest)

/-- An invariant that every step preserves holds after every run. -/
theorem Run.invariant {inv : State → Prop}
    (preserved : ∀ state label next, inv state → step state label = some next → inv next)
    {start finish : State} {labels : List Label}
    (hrun : Run step start labels finish) (hstart : inv start) : inv finish := by
  induction hrun with
  | nil _ => exact hstart
  | cons hstep _ ih => exact ih (preserved _ _ _ hstart hstep)

theorem Run.append {start middle finish : State} {left right : List Label}
    (hleft : Run step start left middle) (hright : Run step middle right finish) :
    Run step start (left ++ right) finish := by
  induction hleft with
  | nil _ => exact hright
  | cons hstep _ ih => exact .cons hstep (ih hright)

/-- Where every step of one system is matched by a run of another, so is every
run of it. -/
theorem Run.simulated {State' : Type w} {Label' : Type x}
    {step' : State' → Label' → Option State'} {related : State → State' → Prop}
    (matched : ∀ state state' label next, related state state' →
      step state label = some next → ∃ labels' next', Run step' state' labels' next' ∧
        related next next')
    {start finish : State} {labels : List Label} (hrun : Run step start labels finish)
    {start' : State'} (hstart : related start start') :
    ∃ labels' finish', Run step' start' labels' finish' ∧ related finish finish' := by
  induction hrun generalizing start' with
  | nil _ => exact ⟨[], start', .nil _, hstart⟩
  | cons hstep _ ih =>
      obtain ⟨labels₁, next', hfirst, hnext⟩ := matched _ _ _ _ hstart hstep
      obtain ⟨labels₂, finish', hrest, hfinish⟩ := ih hnext
      exact ⟨labels₁ ++ labels₂, finish', hfirst.append hrest, hfinish⟩

/-- A run all of whose steps meet a condition on the state before the step. -/
inductive GuardedRun (step : State → Label → Option State) (guard : State → Label → Prop) :
    State → List Label → State → Prop where
  | nil (state : State) : GuardedRun step guard state [] state
  | cons {start next finish : State} {label : Label} {labels : List Label} :
      guard start label → step start label = some next →
      GuardedRun step guard next labels finish →
      GuardedRun step guard start (label :: labels) finish

theorem Run.guarded {admits : Label → Prop} {start finish : State} {labels : List Label}
    (hrun : Run step start labels finish) (hadmits : ∀ label ∈ labels, admits label) :
    GuardedRun step (fun _ => admits) start labels finish := by
  induction hrun with
  | nil state => exact .nil state
  | cons hstep _ ih =>
      obtain ⟨hhead, htail⟩ := List.forall_mem_cons.mp hadmits
      exact .cons hhead hstep (ih htail)

/-- An invariant need only be preserved by the steps the guard admits. -/
theorem GuardedRun.invariant {guard : State → Label → Prop} {inv : State → Prop}
    (preserved : ∀ state label next, inv state → guard state label →
      step state label = some next → inv next)
    {start finish : State} {labels : List Label}
    (hrun : GuardedRun step guard start labels finish) (hstart : inv start) : inv finish := by
  induction hrun with
  | nil _ => exact hstart
  | cons hguard hstep _ ih => exact ih (preserved _ _ _ hstart hguard hstep)

/-- The same for an invariant of the labels so far and the state they lead to. -/
theorem GuardedRun.history {guard : State → Label → Prop} {inv : List Label → State → Prop}
    (preserved : ∀ past state label next, inv past state → guard state label →
      step state label = some next → inv (past ++ [label]) next)
    {start finish : State} {labels : List Label}
    (hrun : GuardedRun step guard start labels finish) (hstart : inv [] start) :
    inv labels finish := by
  suffices hpast : ∀ past, inv past start → inv (past ++ labels) finish from hpast [] hstart
  clear hstart
  induction hrun with
  | nil _ =>
      intro past hpast
      rwa [List.append_nil]
  | cons hguard hstep _ ih =>
      intro past hpast
      rw [List.append_cons]
      exact ih _ (preserved _ _ _ _ hpast hguard hstep)

/-- A system that runs only while it is on, and that exactly the steps the guard
admits leave on, is on after the runs that the guard admits throughout. -/
theorem Run.on_iff_guarded {guard : State → Label → Prop} {on : State → Prop}
    (hon : ∀ state label next, step state label = some next → on state)
    (hguard : ∀ state label next, step state label = some next → (on next ↔ guard state label))
    {start finish : State} {labels : List Label} (hrun : Run step start labels finish)
    (hstart : on start) : on finish ↔ GuardedRun step guard start labels finish := by
  induction hrun with
  | nil state => exact iff_of_true hstart (.nil _)
  | @cons start next finish label labels hstep hrest ih =>
      constructor
      · intro hfinish
        have hnext : on next := by
          cases hrest with
          | nil _ => exact hfinish
          | cons hlater _ => exact hon _ _ _ hlater
        exact .cons ((hguard _ _ _ hstep).mp hnext) hstep ((ih hnext).mp hfinish)
      · rintro (_ | ⟨hadmits, hstep', hguarded⟩)
        rw [hstep] at hstep'
        cases hstep'
        exact (ih ((hguard _ _ _ hstep).mpr hadmits)).mpr hguarded

end Vnctlsd.Library.Transition
