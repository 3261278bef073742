import Mathlib.Data.List.Basic

/-! A source of truth, a replica, and the messages on their way from one to the
other.  The replica is on course if it agrees with the source once it has
received what is under way; what a push must carry follows from that. -/
namespace Vnctlsd.Library.Replica

structure Link (σ : Type u) (ρ : Type v) (μ : Type w) where
  source : σ
  frames : List μ
  replica : ρ

section

variable {σ : Type u} {ρ : Type v} {μ : Type w} {ε : Type x}

def OnCourse (receive : ρ → μ → Except ε ρ) (agree : σ → ρ → Prop) (link : Link σ ρ μ) : Prop :=
  ∃ settled, link.frames.foldlM receive link.replica = .ok settled ∧ agree link.source settled

variable {receive : ρ → μ → Except ε ρ} {agree : σ → ρ → Prop}

theorem onCourse_of_agree {source : σ} {replica : ρ} (h : agree source replica) :
    OnCourse receive agree ⟨source, [], replica⟩ :=
  ⟨replica, rfl, h⟩

/-- A push keeps the replica on course if it takes any replica that agrees with
the old source to one that agrees with the new. -/
theorem OnCourse.push {link : Link σ ρ μ} (h : OnCourse receive agree link) {source : σ}
    {messages : List μ}
    (hcarries : ∀ replica, agree link.source replica →
      ∃ settled, messages.foldlM receive replica = .ok settled ∧ agree source settled) :
    OnCourse receive agree ⟨source, link.frames ++ messages, link.replica⟩ := by
  obtain ⟨middle, hmiddle, hagree⟩ := h
  obtain ⟨settled, hsettled, hfinal⟩ := hcarries middle hagree
  refine ⟨settled, ?_, hfinal⟩
  rw [List.foldlM_append, hmiddle]
  exact hsettled

/-- Receiving is what was foreseen. -/
theorem OnCourse.deliver {source : σ} {frame : μ} {frames : List μ} {replica next : ρ}
    (h : OnCourse receive agree ⟨source, frame :: frames, replica⟩)
    (hnext : receive replica frame = .ok next) :
    OnCourse receive agree ⟨source, frames, next⟩ := by
  obtain ⟨settled, hsettled, hagree⟩ := h
  refine ⟨settled, ?_, hagree⟩
  rw [List.foldlM_cons, hnext] at hsettled
  exact hsettled

theorem OnCourse.agree_of_drained {link : Link σ ρ μ} (h : OnCourse receive agree link)
    (hdrained : link.frames = []) : agree link.source link.replica := by
  obtain ⟨settled, hsettled, hagree⟩ := h
  rw [hdrained] at hsettled
  cases hsettled
  exact hagree

end

end Vnctlsd.Library.Replica
