import Vnctlsd.Library.Transition

/-! Systems that come to rest.  Some labels are the system's own: it takes them
as long as it can, without anybody's help. -/
namespace Vnctlsd.Library.Quiescence
open Vnctlsd.Library.Transition

variable {State : Type u} {Label : Type v} {step : State → Label → Option State}
  {own : Label → Prop}

/-- None of the labels that are the system's own is enabled. -/
def Quiet (step : State → Label → Option State) (own : Label → Prop) (state : State) : Prop :=
  ∀ label, own label → step state label = none

/-- Every own step lowers the measure. -/
def Lowers (step : State → Label → Option State) (own : Label → Prop) (measure : State → Nat) :
    Prop :=
  ∀ state label next, own label → step state label = some next → measure next < measure state

variable {measure : State → Nat}

/-- So the system takes no more own steps than the measure tells. -/
theorem Lowers.length_le (hlowers : Lowers step own measure) {start finish : State}
    {labels : List Label} (hrun : Run step start labels finish)
    (hown : ∀ label ∈ labels, own label) : labels.length + measure finish ≤ measure start := by
  induction hrun with
  | nil state => exact Nat.le_of_eq (Nat.zero_add _)
  | @cons start next finish label labels hstep hrest ih =>
      obtain ⟨hhead, htail⟩ := List.forall_mem_cons.mp hown
      have hlower := hlowers start label next hhead hstep
      have hrest := ih htail
      rw [List.length_cons]
      omega

/-- Left to itself it comes to rest. -/
theorem Lowers.exists_quiet (hlowers : Lowers step own measure) (start : State) :
    ∃ labels finish, Run step start labels finish ∧ (∀ label ∈ labels, own label) ∧
      Quiet step own finish := by
  induction hm : measure start using Nat.strongRecOn generalizing start with
  | ind bound ih =>
      by_cases hquiet : Quiet step own start
      · exact ⟨[], start, .nil start, fun _ h => absurd h List.not_mem_nil, hquiet⟩
      · simp only [Quiet, not_forall] at hquiet
        obtain ⟨label, hown, henabled⟩ := hquiet
        obtain ⟨next, hstep⟩ := Option.ne_none_iff_exists'.mp henabled
        have hlower : measure next < bound := hm ▸ hlowers start label next hown hstep
        obtain ⟨labels, finish, hrun, hlabels, hfinish⟩ := ih _ hlower next rfl
        exact ⟨label :: labels, finish, .cons hstep hrun,
          List.forall_mem_cons.mpr ⟨hown, hlabels⟩, hfinish⟩

end Vnctlsd.Library.Quiescence
